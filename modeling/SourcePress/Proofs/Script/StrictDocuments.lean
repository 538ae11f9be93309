import SourcePress.Proofs.Document
import SourcePress.Proofs.Script.Compact
import SourcePress.Proofs.Script.TokenMarks

/-!
# Strict documents as code

Code is cut into pieces at braces and semicolons and at line ends. In a strict document a brace is a
token, a semicolon is inside a string literal, and a line end is between tokens. So no token is cut,
each piece is a text of some of the tokens, and so is its line, and laid out they are a document of
the same value. Compact and minified they are one as well, and they are valid code.
-/

namespace SourcePress.Json

variable {ts : List Token} {t : Text}

/-- A text of tokens goes on with that of others. -/
theorem Woven.append {us : List Token} {s : Text} (hs : Woven false us s) (ht : Woven false ts t) :
    Woven false (us ++ ts) (s ++ t) := by
  induction hs with
  | nil hgap => exact ht.gap_append (gap_of_isGap hgap.isGap)
  | cons hgap _ ih =>
    rw [List.append_assoc, List.append_assoc]
    exact .cons hgap ih

variable [Alphabet]

/-- A text of tokens may be trimmed, also if it is blank. -/
theorem Woven.trimmed (h : Woven false ts t) (hsound : ∀ tok ∈ ts, tok.IsSound) :
    Woven false ts t.trim := by
  cases ts with
  | cons tok ts => exact h.trim hsound
  | nil =>
    cases h with
    | nil hgap =>
      have hblank : ∀ c ∈ t, c.isBlank := fun c hc => isBlank_of_isGap (hgap.isGap c hc)
      rw [Text.trim, List.dropWhile_eq_nil_iff.mpr hblank]
      exact .nil (.inl .nil)

/-- A blank in front of a text of tokens may be cut off. -/
theorem Woven.of_cons {c : CodePoint} (hc : isGap c) (h : Woven false ts (c :: t))
    (hsound : ∀ tok ∈ ts, tok.IsSound) : Woven false ts t := by
  generalize htext : c :: t = s at h
  cases h with
  | nil hgap =>
    subst htext
    exact .nil (.inl (gap_of_isGap fun d hd => hgap.isGap d (List.mem_cons_of_mem c hd)))
  | @cons gap t' tok ts hgap h =>
    cases gap with
    | nil =>
      obtain ⟨d, w, htok, hd⟩ := (hsound tok List.mem_cons_self).head
      rw [htok] at htext
      cases htext
      rw [hd] at hc
      cases hc
    | cons d gap =>
      cases htext
      exact .cons (gap_of_isGap fun d hd => hgap.isGap d (List.mem_cons_of_mem c hd)) h

end SourcePress.Json

namespace SourcePress.Script

open Lexis Json

section Cuts

variable [Alphabet]

/-- True of pieces whose lines are a text of given tokens, at any depth. -/
def LaysTokens (width : Int) (ps : List (List Mark)) (ts : List Token) : Prop :=
  ∀ depth, Woven false ts (brokenText width (linesFrom depth ps))

/-- A piece that is a text of tokens goes in front, trimmed. -/
theorem LaysTokens.piece {width : Int} {ps : List (List Mark)} {ts us : List Token}
    (h : LaysTokens width ps ts) {p : List Mark} (hp : Woven false us (points p))
    (hus : ∀ tok ∈ us, tok.IsSound) : LaysTokens width (p :: ps) (us ++ ts) := by
  intro depth
  obtain ⟨depth', behind, hlines⟩ := exists_linesFrom depth p ps
  have htrim := hp.trimmed hus
  rw [hlines]
  split
  · next hnil =>
    have hlength := htrim.length_le hus
    rw [hnil, List.length_nil, Nat.le_zero, List.length_eq_zero_iff] at hlength
    rw [hlength, List.nil_append]
    exact h behind
  · have hlead : ∀ c ∈ Line.lead width ⟨depth', (points p).trim⟩, isGap c := by
      refine List.forall_mem_cons.mpr ⟨rfl, fun c hc => ?_⟩
      rw [List.eq_of_mem_replicate hc]
      rfl
    rw [brokenText_line]
    exact (htrim.append (h behind)).gap_append (gap_of_isGap hlead)

/-- What is behind a piece that was begun, with some tokens in it, is laid out to the rest of the
tokens. -/
def LaysBehind (width : Int) (ms : List Mark) (ts : List Token) : Prop :=
  ∀ p us, Woven false us (points p) → (∀ tok ∈ us, tok.IsSound) →
    LaysTokens width (prependPiece p (pieces ms)) (us ++ ts)

namespace LaysBehind

variable {width : Int} {ms : List Mark} {ts : List Token}

/-- No piece needs to be begun. -/
theorem laysTokens (h : LaysBehind width ms ts) : LaysTokens width (pieces ms) ts := by
  have hbegun := h [] [] (.nil (.inl .nil)) (by simp)
  rwa [prependPiece_nil] at hbegun

/-- Marks that cut nothing and are a text of tokens go in front. -/
theorem uncut (h : LaysBehind width ms ts) {ns : List Mark}
    (hns : ∀ m ∈ ns, ∀ rest, cutAt m rest = .none) {vs : List Token}
    (hvs : Woven false vs (points ns)) (hsound : ∀ tok ∈ vs, tok.IsSound) :
    LaysBehind width (ns ++ ms) (vs ++ ts) := by
  intro p us hp hus
  rw [pieces_append_of_cutAt hns, prependPiece_prependPiece, ← List.append_assoc]
  refine h (p ++ ns) (us ++ vs) ?_ (List.forall_mem_append.mpr ⟨hus, hsound⟩)
  rw [points_append]
  exact hp.append hvs

/-- A live code point that is a text of tokens goes in front, whatever it cuts. -/
theorem point (h : LaysBehind width ms ts) {c : CodePoint} {vs : List Token}
    (hvs : Woven false vs [c]) (hsound : ∀ tok ∈ vs, tok.IsSound)
    (hend : c.isLineEnd = true → vs = []) :
    LaysBehind width (Region.code.mark c :: ms) (vs ++ ts) := by
  intro p us hp hus
  have hboth : ∀ tok ∈ us ++ vs, tok.IsSound := List.forall_mem_append.mpr ⟨hus, hsound⟩
  have hbegun : Woven false (us ++ vs) (points (p ++ [Region.code.mark c])) := by
    rw [points_append]
    exact hp.append hvs
  rw [pieces]
  rcases cutAt_live c ms with ⟨hcut, -⟩ | ⟨hcut, -⟩ | ⟨hcut, -⟩ | ⟨hcut, hc⟩
  all_goals rw [hcut]; dsimp only
  · rw [prependPiece_consPiece, ← List.append_assoc]
    exact h _ _ hbegun hboth
  · rw [← List.append_assoc]
    exact h.laysTokens.piece hbegun hboth
  · rw [prependPiece, List.append_nil]
    exact (h.laysTokens.piece (p := [Region.code.mark c]) hvs hsound).piece hp hus
  · rw [prependPiece, List.append_nil, hend hc]
    exact h.laysTokens.piece hp hus

end LaysBehind

/-- No code point that a token begins or ends with ends a line. -/
theorem isLineEnd_of_token_point {c : CodePoint}
    (h : Json.IsPunctuation c ∨ (∃ q : Quote, c = q.point) ∨ IsAtomPoint c) :
    c.isLineEnd = false := by
  refine Bool.eq_false_of_not_eq_true fun hend => ?_
  have hblank := CodePoint.isBlank_of_isLineEnd hend
  rw [isBlank_of_token_point h] at hblank
  cases hblank

/-- Atoms cut nothing. -/
theorem cutAt_of_isAtomPoint {c : CodePoint} (hc : IsAtomPoint c) (rest : List Mark) :
    cutAt (Region.code.mark c) rest = .none := by
  have hmarks : ∀ d ∈ (['{', ';', '}'] : Text),
      Repair.isAsciiMark d ∧ d ∉ Text.ofString "-+." := by decide
  have hcuts : ∀ d ∈ (['{', ';', '}'] : Text), ¬IsAtomPoint d := fun d hd =>
    Repair.not_isAtomPoint_of_isAsciiMark (hmarks d hd).1 (hmarks d hd).2
  rcases cutAt_live c rest with ⟨hcut, -⟩ | ⟨-, hpoint⟩ | ⟨-, hpoint⟩ | ⟨-, hend⟩
  · exact hcut
  · exact absurd hc (hcuts c (by rcases hpoint with rfl | rfl <;> simp))
  · exact absurd hc (hcuts c (by simp [hpoint]))
  · rw [isLineEnd_of_token_point (.inr (.inr hc))] at hend
    cases hend

/-- A token goes in front. -/
theorem LaysBehind.token {width : Int} {ms : List Mark} {ts : List Token}
    (h : LaysBehind width ms ts) {tok : Token} (htok : tok.IsSound) :
    LaysBehind width (tokenMarks tok ++ ms) (tok :: ts) := by
  have hsingle : Woven false [tok] (points (tokenMarks tok)) := by
    rw [points_tokenMarks, ← List.append_nil tok.text]
    exact .cons .nil (.nil (.inl .nil))
  have hsound : ∀ tok' ∈ [tok], tok'.IsSound := List.forall_mem_singleton.mpr htok
  have hword : ∀ {w : Text}, (∀ c ∈ w, IsAtomPoint c) →
      ∀ m ∈ w.map Region.code.mark, ∀ rest, cutAt m rest = .none := by
    intro w hw m hm rest
    obtain ⟨c, hc, rfl⟩ := List.mem_map.mp hm
    exact cutAt_of_isAtomPoint (hw c hc) rest
  cases tok with
  | punctuation c =>
    have hend : c.isLineEnd = false := isLineEnd_of_token_point (.inl htok)
    exact h.point hsingle hsound fun hend' => absurd (hend.symm.trans hend') Bool.false_ne_true
  | literal q content =>
    have hliteral : ∀ m ∈ (Region.string q).construct (q.literal content), ∀ rest,
        cutAt m rest = .none := by
      intro m hm rest
      rw [cutAt, Mark.isLive, region_of_mem_construct hm]
      rfl
    exact h.uncut hliteral hsingle hsound
  | key word => exact h.uncut (hword fun c hc => .inl (htok.2 c hc)) hsingle hsound
  | atom text => exact h.uncut (hword htok.2.1) hsingle hsound

/-- No token of a document is cut. -/
theorem MarksOf.laysBehind (width : Int) {ts : List Token} {ms : List Mark} (h : MarksOf ts ms) :
    LaysBehind width ms ts := by
  induction h with
  | nil =>
    intro p us hp hus
    have hnil : LaysTokens width [] [] := fun _ => .nil (.inl .nil)
    rw [pieces, prependPiece, List.append_nil]
    exact hnil.piece hp hus
  | blank hc _ ih =>
    have hgap : Woven false [] [_] := .nil (.inl (gap_of_isGap (List.forall_mem_singleton.mpr hc)))
    exact ih.point hgap (by simp) fun _ => rfl
  | token hsound _ ih => exact ih.token hsound

/-- A text of tokens is laid out to one. -/
theorem woven_layOut (width : Int) {ts : List Token} {t : Text} (h : Woven false ts t)
    (hsound : ∀ tok ∈ ts, tok.IsSound) : Woven false ts (layOut width t) := by
  have hlines := ((marksOf_scan h hsound).1.laysBehind width).laysTokens 0
  rw [layOut]
  rw [← codeLines] at hlines
  cases hcode : codeLines t with
  | nil =>
    rw [hcode] at hlines
    exact hlines
  | cons l lines =>
    rw [hcode, brokenText_cons] at hlines
    exact hlines.of_cons rfl hsound

end Cuts

/-- Strict JSON is valid code. Made compact, minified or laid out as code, with indentation of any
width, it is strict JSON of the same value. -/
theorem strict_document_as_code [Platform] {t : Text} {v : Json} (h : Document.readStrict t = .ok v)
    (width : Int) :
    validate t = .ok validMessage ∧ Document.readStrict (compact t) = .ok v ∧
      Document.readStrict (minify t) = .ok v ∧
      Document.readStrict (layOut width t) = .ok v := by
  obtain ⟨ts, hderives, hwoven⟩ := Document.document_of_readStrict h
  have hread : ∀ {t' : Text}, Woven false ts t' → Document.readStrict t' = .ok v :=
    fun hwoven' => Document.readStrict_document ⟨ts, hderives, hwoven'⟩
  have hmarks := (marksOf_scan hwoven hderives.isSound).1
  have hcompact : Woven false ts (compact t) := hmarks.woven_compactFrom none false
  refine ⟨validate_of_derives hderives hwoven, hread hcompact, ?_,
    hread (woven_layOut width hwoven hderives.isSound)⟩
  rw [minify_eq_compact hmarks.gluesMarker_eq_false]
  exact hread hcompact

open scoped Platform

/-- The strict sample, whose string looks like a comment, is valid code and keeps its value. -/
theorem strict_document_as_code_sample :
    Document.readStrict Document.strictSample = .ok Document.strictValue ∧
      validate Document.strictSample = .ok validMessage ∧
      Document.readStrict (compact Document.strictSample) = .ok Document.strictValue ∧
      Document.readStrict (minify Document.strictSample) = .ok Document.strictValue ∧
      Document.readStrict (layOut 2 Document.strictSample) = .ok Document.strictValue := by
  have hread := Document.readStrict_document Document.document_strictSample
  exact ⟨hread, strict_document_as_code hread 2⟩

example : layOut 2 Document.strictSample = "\x7b\n  \"a\": \"//,\"\n\x7d" := by decide

end SourcePress.Script
