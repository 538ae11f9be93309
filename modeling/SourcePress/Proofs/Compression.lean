import SourcePress.Proofs.Document
import SourcePress.Proofs.Json.Sizes
import SourcePress.Proofs.Measure.Percentage

/-!
# Compressed documents and their sizes

Strict JSON is compressed to no more bytes than it has, but for literals of binary64 numbers that
are shorter than the text that such a number is written with. Each of these makes the document
larger by the difference at most. Where there is none, the report shows no loss.
-/

namespace SourcePress.Document

/-- What it is for tokens to be those of a strict text with a value. -/
structure IsStrictReading [Platform] (t : Text) (v : Json) (ts : List Json.Token) : Prop where
  /-- The tokens stand for the value. -/
  derives : Json.Derives .none Platform.maxDepth (.value false v) ts
  /-- The text is made of the tokens with blanks of JSON between them. -/
  woven : Json.Woven false ts t

/-- Strict JSON is compressed, whatever the settings, to a text that is larger by no more than its
literals of binary64 numbers grow. If none of them grows, the report shows no loss. -/
theorem compress_growth [Platform] {t : Text} {v : Json} (h : readStrict t = .ok v) :
    (∃ ts, IsStrictReading t v ts) ∧ ∀ ts, IsStrictReading t v ts → ∀ s, ∃ out,
      compress s t = .ok out ∧ out.byteLength ≤ t.byteLength + Json.growth ts ∧
        (Json.growth ts = 0 → ∀ elapsed countLines, ∃ r,
          Measure.report t out elapsed countLines = .ok r ∧ 0 ≤ r.savedPercent) := by
  have hdocument := document_of_readStrict h
  constructor
  · obtain ⟨ts, hderives, hwoven⟩ := hdocument
    exact ⟨ts, hderives, hwoven⟩
  · intro ts hts s
    have hcompress := compress_of_parse (parse_document s.covers_none hdocument)
    have hwritten : (Json.write .compact v).byteLength ≤ Json.room ts := hts.derives.writtenWithin 0
    have hsize := hwritten.trans hts.woven.room_le
    refine ⟨_, hcompress, hsize, fun hgrowth => ?_⟩
    rw [hgrowth] at hsize
    exact Measure.exists_report hsize

open scoped Platform

/-- One and a half. -/
def oneAndAHalf : Binary64 := ⟨false, 3 * 2 ^ 51, -52, by decide⟩

/-- A text with a literal that is longer than what is written of its number. -/
def shrinkingSample : Text := "[ 1.50 ]"

/-- The tokens of the shrinking sample. -/
def shrinkingTokens : List Json.Token :=
  [.punctuation (.scalar '['), .atom "1.50", .punctuation (.scalar ']')]

/-- The shrinking sample is an array of one number. -/
theorem isStrictReading_shrinkingSample :
    IsStrictReading shrinkingSample (.arr [.float oneAndAHalf]) shrinkingTokens where
  derives := by
    have hwhole : Json.IsWhole "1" := .inr ⟨⟨by decide, by decide⟩, by decide⟩
    have hfraction : Json.SpellsFraction "50" ".50" := .inr ⟨⟨by decide, by decide⟩, rfl⟩
    have hspells : Json.SpellsNumeral ⟨false, "1", "50", none⟩ "1.50" :=
      ⟨".50", [], hwhole, hfraction, .inl ⟨rfl, rfl⟩, rfl⟩
    have hdenotes : Json.Denotes ⟨false, "1", "50", none⟩ (.float oneAndAHalf) :=
      .inr ⟨rfl, _, by decide +kernel, rfl⟩
    exact .array (n := 899) (.item (.number hspells hdenotes)) (.inl rfl)
  woven := by
    have hspace : Json.Gap false [.scalar ' '] := .blank rfl .nil
    exact .cons .nil (.cons hspace (.cons hspace (.nil (.inl .nil))))

/-- The shrinking sample is compressed to a text that is not larger, and the report shows no
loss. -/
theorem compress_growth_sample :
    readStrict shrinkingSample = .ok (.arr [.float oneAndAHalf]) ∧
      IsStrictReading shrinkingSample (.arr [.float oneAndAHalf]) shrinkingTokens ∧
      Json.growth shrinkingTokens = 0 ∧ ∃ out, compress {} shrinkingSample = .ok out ∧
        out.byteLength ≤ shrinkingSample.byteLength ∧ ∃ r,
          Measure.report shrinkingSample out 0 false = .ok r ∧ 0 ≤ r.savedPercent := by
  have hreading := isStrictReading_shrinkingSample
  have hread := readStrict_document ⟨_, hreading.derives, hreading.woven⟩
  have hgrowth : Json.growth shrinkingTokens = 0 := by decide +kernel
  obtain ⟨out, hcompress, hsize, hreport⟩ :=
    (compress_growth hread).2 shrinkingTokens hreading {}
  rw [hgrowth] at hsize
  exact ⟨hread, hreading, hgrowth, out, hcompress, hsize, hreport hgrowth 0 false⟩

/-- A hundred thousand. -/
def hundredThousand : Binary64 := ⟨false, 100000 * 2 ^ 36, -36, by decide⟩

/-- A text with a literal that is shorter than what is written of its number. -/
def growingSample : Text := "1e5"

/-- The growing sample is strict JSON and is compressed to a larger text, and the report shows a
loss. -/
theorem compress_grows :
    readStrict growingSample = .ok (.float hundredThousand) ∧
      compress {} growingSample = .ok "100000.0" ∧
      growingSample.byteLength < Text.byteLength "100000.0" ∧ ∃ r,
        Measure.report growingSample "100000.0" 0 false = .ok r ∧ r.savedPercent = -167 := by
  have hwhole : Json.IsWhole "1" := .inr ⟨⟨by decide, by decide⟩, by decide⟩
  have hexponent : Json.SpellsExponent (some (false, "5")) "e5" :=
    .inr ⟨.scalar 'e', [], false, "5", rfl, ⟨by decide, by decide⟩, by decide, rfl,
      .inr ⟨rfl, .inr rfl⟩⟩
  have hspells : Json.SpellsNumeral ⟨false, "1", [], some (false, "5")⟩ growingSample :=
    ⟨[], "e5", hwhole, .inl ⟨rfl, rfl⟩, hexponent, rfl⟩
  have hdenotes : Json.Denotes ⟨false, "1", [], some (false, "5")⟩ (.float hundredThousand) :=
    .inr ⟨rfl, _, by decide +kernel, rfl⟩
  have hdocument : Json.Document .none (.float hundredThousand) growingSample :=
    ⟨_, .number hspells hdenotes, .cons .nil (.nil (.inl .nil))⟩
  have hcompress := compress_of_parse (parse_document (Repair.Settings.covers_none {}) hdocument)
  have hwritten : Json.write .compact (.float hundredThousand) = "100000.0" := by
    rw [Json.write, Json.writeAt]
    decide +kernel
  rw [hwritten] at hcompress
  refine ⟨readStrict_document hdocument, hcompress, by decide, ?_⟩
  have hpercent : Measure.savedPercent (Text.byteLength growingSample)
      (Text.byteLength "100000.0") = .ok (-167) := by
    decide +kernel
  rw [Measure.report, hpercent]
  exact ⟨_, rfl, rfl⟩

end SourcePress.Document
