import SourcePress.Proofs.Repair.Documents
import SourcePress.Proofs.Script.BracketWords
import SourcePress.Proofs.Script.CompactLayout

/-!
# The marks of documents

The scan finds the tokens of a strict document: a string between quotes is one literal, and all else
is live. Compact code keeps each token as it is and has no more than a space between two of them, so
it is a text of the same tokens. The live brackets are those of the document, and they are balanced.
-/

namespace SourcePress.Script

open Lexis Json

/-- True of a code point that opens and escapes nothing. -/
def IsPlain (c : CodePoint) : Prop :=
  Quote.ofPoint? c = none ∧ c ≠ .scalar '/' ∧ c ≠ .scalar '\\'

/-- Marks of punctuation are plain. -/
theorem isPlain_of_isPunctuation {c : CodePoint} (hc : Json.IsPunctuation c) : IsPlain c := by
  rcases hc with rfl | rfl | rfl | rfl | rfl | rfl <;> exact ⟨rfl, by decide, by decide⟩

variable [Alphabet]

/-- The code points of atoms are plain. -/
theorem isPlain_of_isAtomPoint {c : CodePoint} (hc : IsAtomPoint c) : IsPlain c := by
  have hquote : Quote.ofPoint? c = none := by
    refine Option.eq_none_iff_forall_ne_some.mpr fun q hq => ?_
    exact Repair.not_isAtomPoint (.inl ⟨q, eq_point_of_ofPoint? hq⟩) hc
  refine ⟨hquote, fun hsolidus => Repair.not_isAtomPoint (.inr hsolidus) hc, ?_⟩
  rintro rfl
  exact Repair.not_isAtomPoint_of_isAsciiMark (by decide) (by decide) hc

omit [Alphabet] in
/-- Plain code points are live. -/
theorem scanTo_plain {t : Text} (ht : ∀ c ∈ t, IsPlain c) (next : Option CodePoint) :
    scanTo (.code false) t next = t.map Region.code.mark ∧
      modeTo (.code false) t next = .code false :=
  scanTo_live (fun c hc => opening?_of_plain (ht c hc).1 (ht c hc).2.1)
    (fun c hc => (ht c hc).2.2) next

/-- The marks of a token. -/
def tokenMarks : Token → List Mark
  | .punctuation c => [Region.code.mark c]
  | .literal q content => (Region.string q).construct (q.literal content)
  | .key word => word.map Region.code.mark
  | .atom text => text.map Region.code.mark

omit [Alphabet] in
/-- The marks of a token are those of its text. -/
theorem points_tokenMarks (tok : Token) : points (tokenMarks tok) = tok.text := by
  cases tok with
  | punctuation c => rfl
  | literal q content => rw [tokenMarks, Token.text, Region.points_construct]
  | key word => exact points_map_mark _ _
  | atom text => exact points_map_mark _ _

/-- A token has the same marks wherever it stands. -/
theorem scanTo_token {tok : Token} (h : tok.IsSound) (next : Option CodePoint) :
    scanTo (.code false) tok.text next = tokenMarks tok ∧
      modeTo (.code false) tok.text next = .code false := by
  cases tok with
  | punctuation c =>
    exact scanTo_plain (List.forall_mem_singleton.mpr (isPlain_of_isPunctuation h)) next
  | literal q content => exact scanTo_literal h next
  | key word => exact scanTo_plain (fun c hc => isPlain_of_isAtomPoint (.inl (h.2 c hc))) next
  | atom text => exact scanTo_plain (fun c hc => isPlain_of_isAtomPoint (h.2.1 c hc)) next

/-- The marks that tokens have in a text with blanks of JSON between them. -/
inductive MarksOf : List Token → List Mark → Prop
  /-- The end of the text. -/
  | nil : MarksOf [] []
  /-- A blank. -/
  | blank {c : CodePoint} {ts : List Token} {ms : List Mark} (hc : isGap c) (h : MarksOf ts ms) :
      MarksOf ts (Region.code.mark c :: ms)
  /-- A token. -/
  | token {tok : Token} {ts : List Token} {ms : List Mark} (hsound : tok.IsSound)
      (h : MarksOf ts ms) : MarksOf (tok :: ts) (tokenMarks tok ++ ms)

namespace MarksOf

variable {ts : List Token} {ms : List Mark}

/-- Blanks may stand in front. -/
theorem gap_append (h : MarksOf ts ms) {gap : Text} (hgap : ∀ c ∈ gap, isGap c) :
    MarksOf ts (gap.map Region.code.mark ++ ms) := by
  induction gap with
  | nil => exact h
  | cons c gap ih =>
    obtain ⟨hc, hgap⟩ := List.forall_mem_cons.mp hgap
    exact .blank hc (ih hgap)

end MarksOf

/-- The scan of a text of tokens finds the tokens and ends in live code. -/
theorem marksOf_scan {ts : List Token} {t : Text} (h : Woven false ts t)
    (hsound : ∀ tok ∈ ts, tok.IsSound) : MarksOf ts (scan t) ∧ finalMode t = .start := by
  have hblanks : ∀ {gap : Text}, (∀ c ∈ gap, isGap c) → ∀ next,
      scanTo (.code false) gap next = gap.map Region.code.mark ∧
        modeTo (.code false) gap next = .code false :=
    fun hgap => scanTo_blanks fun c hc => isBlank_of_isGap (hgap c hc)
  induction h with
  | @nil gap hgap =>
    have hscan := hblanks hgap.isGap none
    rw [scan, finalMode, scanFrom_eq_scanTo, modeAfter_eq_modeTo, Mode.start, hscan.1, hscan.2,
      ← List.append_nil (List.map _ _)]
    exact ⟨MarksOf.nil.gap_append hgap.isGap, rfl⟩
  | @cons gap t tok ts hgap h ih =>
    obtain ⟨htok, hts⟩ := List.forall_mem_cons.mp hsound
    obtain ⟨hmarks, hmode⟩ := ih hts
    have hfront := hblanks hgap.isGap (tok.text ++ t).head?
    have htoken := scanTo_token htok t.head?
    rw [scan, finalMode, Mode.start, scanFrom_append, modeAfter_append, hfront.1, hfront.2,
      scanFrom_append, modeAfter_append, htoken.1, htoken.2]
    exact ⟨(MarksOf.token htok hmarks).gap_append hgap.isGap, hmode⟩

/-- The marks of a token are in a string literal, or they are live and make punctuation or atoms. -/
theorem cases_of_mem_tokenMarks {tok : Token} (h : tok.IsSound) {m : Mark}
    (hm : m ∈ tokenMarks tok) :
    (∃ q, m.region = .string q) ∨
      ∃ c, m = Region.code.mark c ∧ (Json.IsPunctuation c ∨ IsAtomPoint c) := by
  cases tok with
  | punctuation c => exact .inr ⟨c, List.mem_singleton.mp hm, .inl h⟩
  | literal q content =>
    have hconstruct : m ∈ (Region.string q).construct (q.literal content) := hm
    exact .inl ⟨q, region_of_mem_construct hconstruct⟩
  | key word =>
    obtain ⟨c, hc, rfl⟩ := List.mem_map.mp hm
    exact .inr ⟨c, rfl, .inr (.inl (h.2 c hc))⟩
  | atom text =>
    obtain ⟨c, hc, rfl⟩ := List.mem_map.mp hm
    exact .inr ⟨c, rfl, .inr (h.2.1 c hc)⟩

/-- The marks of a token are not left out. -/
theorem isDropped_tokenMarks {tok : Token} (h : tok.IsSound) :
    ∀ m ∈ tokenMarks tok, isDropped m = false := by
  intro m hm
  rcases cases_of_mem_tokenMarks h hm with ⟨q, hq⟩ | ⟨c, rfl, hc⟩
  · rw [isDropped, Mark.isComment, Mark.isLive, hq]
    rfl
  · exact isBlank_of_token_point (hc.imp_right .inr)

/-- A token has a mark. -/
theorem tokenMarks_ne_nil {tok : Token} (h : tok.IsSound) : tokenMarks tok ≠ [] := by
  obtain ⟨c, t, htext, -⟩ := h.head
  intro hnil
  rw [← points_tokenMarks, hnil] at htext
  cases htext

omit [Alphabet] in
/-- Kept marks stay next to each other, behind a space at most. -/
theorem exists_compactFrom_kept {ms : List Mark} (hne : ms ≠ [])
    (h : ∀ m ∈ ms, isDropped m = false) (previous : Option CodePoint) (gap : Bool)
    (rest : List Mark) :
    ∃ space p, (space = [] ∨ space = [.scalar ' ']) ∧ compactFrom previous gap (ms ++ rest) =
      space ++ (points ms ++ compactFrom (some p) false rest) := by
  obtain ⟨m, ms, rfl⟩ := List.exists_cons_of_ne_nil hne
  obtain ⟨hm, hms⟩ := List.forall_mem_cons.mp h
  obtain ⟨p, hp⟩ := compactMarksFrom_kept hms m.point rest
  have hrest := congrArg points hp
  rw [points_append, points_compactMarksFrom, points_compactMarksFrom] at hrest
  refine ⟨gapBefore previous gap m, p, (gapBefore_eq previous gap m).imp_right And.right, ?_⟩
  rw [List.cons_append, compactFrom_cons_kept hm, hrest, points_cons, List.cons_append]

/-- Compact code is a text of the same tokens. -/
theorem MarksOf.woven_compactFrom {ts : List Token} {ms : List Mark} (h : MarksOf ts ms)
    (previous : Option CodePoint) (gap : Bool) : Woven false ts (compactFrom previous gap ms) := by
  induction h generalizing previous gap with
  | nil => exact .nil (.inl .nil)
  | blank hc h ih =>
    rw [compactFrom_cons_dropped (isDropped_blank (isBlank_of_isGap hc))]
    exact ih previous true
  | @token tok ts ms hsound h ih =>
    obtain ⟨space, p, hspace, hcompact⟩ := exists_compactFrom_kept (tokenMarks_ne_nil hsound)
      (isDropped_tokenMarks hsound) previous gap ms
    rw [hcompact, points_tokenMarks]
    refine .cons (gap_of_isGap fun c hc => ?_) (ih (some p) false)
    rcases hspace with rfl | rfl
    · cases hc
    · cases List.mem_singleton.mp hc
      decide

/-- No live mark of a token is a solidus. -/
theorem isSolidus_tokenMarks {tok : Token} (h : tok.IsSound) :
    ∀ m ∈ tokenMarks tok, isSolidus m = false := by
  intro m hm
  rcases cases_of_mem_tokenMarks h hm with ⟨q, hq⟩ | ⟨c, rfl, hc⟩
  · rw [isSolidus, Mark.live?, Mark.isLive, hq]
    rfl
  · have hplain : IsPlain c := hc.elim isPlain_of_isPunctuation isPlain_of_isAtomPoint
    exact decide_eq_false fun hsolidus => hplain.2.1 (Option.some.inj hsolidus)

/-- No marker of a comment is glued in a document, as it has no live solidus. -/
theorem MarksOf.gluesMarker_eq_false {ts : List Token} {ms : List Mark} (h : MarksOf ts ms) :
    gluesMarker ms = false := by
  have happend : ∀ {front rest : List Mark}, (∀ m ∈ front, isSolidus m = false) →
      gluesMarker rest = false → gluesMarker (front ++ rest) = false := by
    intro front rest hfront hrest
    induction front with
    | nil => exact hrest
    | cons m front ih =>
      obtain ⟨hm, hfront⟩ := List.forall_mem_cons.mp hfront
      rw [List.cons_append, gluesMarker, hm, ih hfront]
      rfl
  induction h with
  | nil => rfl
  | @blank c ts ms hc h ih =>
    have hne : c ≠ .scalar '/' := CodePoint.ne_of_isBlank (isBlank_of_isGap hc) (by decide)
    have hsolidus : isSolidus (Region.code.mark c) = false :=
      decide_eq_false fun heq => hne (Option.some.inj heq)
    exact happend (List.forall_mem_singleton.mpr hsolidus) ih
  | token hsound h ih => exact happend (isSolidus_tokenMarks hsound) ih

/-- The bracket that a token is. -/
def bracket? : Token → Option CodePoint
  | .punctuation c => if isBracket c then some c else none
  | _ => none

/-- The code points of atoms are no brackets. -/
theorem isBracket_of_isAtomPoint {c : CodePoint} (hc : IsAtomPoint c) : isBracket c = false := by
  have hbrackets : ∀ d ∈ (['(', ')', '[', ']', '{', '}'] : Text),
      Repair.isAsciiMark d ∧ d ∉ Text.ofString "-+." := by decide
  refine Bool.eq_false_of_not_eq_true fun hbracket => ?_
  obtain ⟨hmark, hsign⟩ := hbrackets c (List.contains_iff_mem.mp hbracket)
  exact Repair.not_isAtomPoint_of_isAsciiMark hmark hsign hc

/-- The live brackets of a document are those of its tokens. -/
theorem MarksOf.liveBrackets {ts : List Token} {ms : List Mark} (h : MarksOf ts ms) :
    (ms.filterMap Mark.live?).filter isBracket = ts.filterMap bracket? := by
  have hword : ∀ {w : Text}, (∀ c ∈ w, IsAtomPoint c) →
      ((w.map Region.code.mark).filterMap Mark.live?).filter isBracket = [] := by
    intro w hw
    have hlive : (w.map Region.code.mark).filterMap Mark.live? = w := by
      rw [List.filterMap_map]
      exact List.filterMap_some
    rw [hlive, List.filter_eq_nil_iff]
    intro c hc
    simp [isBracket_of_isAtomPoint (hw c hc)]
  induction h with
  | nil => rfl
  | @blank c ts ms hc h ih =>
    have hlive : (Region.code.mark c).live? = some c := rfl
    have hbracket : ¬isBracket c = true := by
      intro hbracket
      have hblank := isBlank_of_isBracket hbracket
      rw [isBlank_of_isGap hc] at hblank
      cases hblank
    rw [List.filterMap_cons_some hlive, List.filter_cons_of_neg hbracket, ih]
  | @token tok ts ms hsound h ih =>
    rw [List.filterMap_append, List.filter_append, ih]
    cases tok with
    | punctuation c =>
      have hlive : (tokenMarks (.punctuation c)).filterMap Mark.live? = [c] := rfl
      rw [hlive, List.filterMap_cons, bracket?, List.filter_singleton]
      cases isBracket c <;> rfl
    | literal q content =>
      have hregion : (Region.string q).isLive = false := rfl
      rw [tokenMarks, filterMap_live?_construct hregion]
      rfl
    | key word =>
      rw [tokenMarks, hword fun c hc => .inl (hsound.2 c hc)]
      rfl
    | atom text =>
      rw [tokenMarks, hword hsound.2.1]
      rfl

omit [Alphabet] in
/-- Balanced words one after the other are balanced. -/
theorem IsBalanced.append {s t : Text} (hs : IsBalanced s) (ht : IsBalanced t) :
    IsBalanced (s ++ t) := by
  induction hs with
  | nil => exact ht
  | @pair b inner rest hinner _ _ ih =>
    have hpair := IsBalanced.pair b hinner ih
    simpa using hpair

/-- The brackets of a phrase are balanced. -/
theorem isBalanced_brackets {s : Repair.Settings} {n : Nat} {φ : Phrase} {ts : List Token}
    (h : Derives s n φ ts) : IsBalanced (ts.filterMap bracket?) := by
  have hcomma : bracket? (.punctuation (.scalar ',')) = none := rfl
  have hcolon : bracket? (.punctuation (.scalar ':')) = none := rfl
  have hname : ∀ {tok : Token} {k : Text}, Names s tok k → bracket? tok = none := by
    intro tok k hk
    cases hk <;> rfl
  have hcontainer : ∀ (b : Bracket) {ts trail : List Token}, Trails s trail →
      IsBalanced (ts.filterMap bracket?) → IsBalanced ((Token.punctuation b.opener ::
        (ts ++ (trail ++ [.punctuation b.closer]))).filterMap bracket?) := by
    intro b ts trail hend hinner
    have hopener : bracket? (.punctuation b.opener) = some b.opener := by cases b <;> rfl
    have hcloser : bracket? (.punctuation b.closer) = some b.closer := by cases b <;> rfl
    have htrail : trail.filterMap bracket? = [] := by
      rcases hend with rfl | ⟨-, rfl⟩ <;> rfl
    have hpair := IsBalanced.pair b hinner .nil
    rwa [List.filterMap_cons_some hopener, List.filterMap_append, List.filterMap_append, htrail,
      List.nil_append, List.filterMap_cons_some hcloser]
  induction h with
  | null => exact .nil
  | bool => exact .nil
  | number => exact .nil
  | string => exact .nil
  | singleString => exact .nil
  | emptyArray => exact .pair .square .nil .nil
  | array _ hend ih => exact hcontainer .square hend ih
  | emptyObject => exact .pair .curly .nil .nil
  | object _ hend ih => exact hcontainer .curly hend ih
  | item _ ih => exact ih
  | consItem _ _ ih ih' =>
    rw [List.filterMap_append, List.filterMap_cons_none hcomma]
    exact ih.append ih'
  | member hk _ ih =>
    rw [List.filterMap_cons_none (hname hk), List.filterMap_cons_none hcolon]
    exact ih
  | consMember hk _ _ ih ih' =>
    rw [List.filterMap_cons_none (hname hk), List.filterMap_cons_none hcolon,
      List.filterMap_append, List.filterMap_cons_none hcomma]
    exact ih.append ih'

/-- A text of the tokens of a phrase is valid code. -/
theorem validate_of_derives {s : Repair.Settings} {n : Nat} {φ : Phrase} {ts : List Token}
    (h : Derives s n φ ts) {t : Text} (hwoven : Woven false ts t) :
    validate t = .ok validMessage := by
  obtain ⟨hmarks, hmode⟩ := marksOf_scan hwoven h.isSound
  have hbalanced : IsBalanced (liveBrackets t) := by
    rw [liveBrackets, hmarks.liveBrackets]
    exact isBalanced_brackets h
  have hcloses : closesAll [] (liveBrackets t) = true :=
    (closesAll_nil_iff fun _ hc => (List.mem_filter.mp hc).2).mpr hbalanced
  rw [liveBrackets, closesAll_filter fun _ hc => hc] at hcloses
  rw [validate_eq_ok_iff, isTerminated, hmode, Repair.significant,
    closesAll_filter fun c hc => by simp [isBlank_of_isBracket hc]]
  exact ⟨hcloses, rfl⟩

end SourcePress.Script
