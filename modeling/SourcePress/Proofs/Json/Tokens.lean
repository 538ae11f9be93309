import SourcePress.Proofs.Json.Numbers
import SourcePress.Proofs.Json.Strings
import SourcePress.Repair.BareValues

/-!
# The tokens of documents

Tokens begin with what is no gap, so the reader finds the first token of a strict text behind the
gap in front of it, with the other tokens woven into the text behind it.
-/

namespace SourcePress.Json

open Lexis

/-- What stands between tokens is blank. -/
theorem isBlank_of_isGap {c : CodePoint} (h : isGap c) : c.isBlank := by
  simp only [isGap, Bool.or_eq_true, decide_eq_true_eq] at h
  rcases h with ((rfl | rfl) | rfl) | rfl <;> decide

section Sound

variable [Alphabet]

/-- True of the code points that atoms are made of. -/
def IsAtomPoint (c : CodePoint) : Prop :=
  Repair.isKeyPoint c = true ∨ c = .scalar '-' ∨ c = .scalar '+' ∨ c = .scalar '.'

instance (c : CodePoint) : Decidable (IsAtomPoint c) := by
  unfold IsAtomPoint
  infer_instance

/-- True of the code points that are tokens alone. -/
def IsPunctuation (c : CodePoint) : Prop :=
  c = .scalar '{' ∨ c = .scalar '}' ∨ c = .scalar '[' ∨ c = .scalar ']' ∨ c = .scalar ',' ∨
    c = .scalar ':'

instance (c : CodePoint) : Decidable (IsPunctuation c) := by
  unfold IsPunctuation
  infer_instance

/-- True of texts that are no bare values: words of JSON, and what begins with no name. -/
def IsNoBareValue (text : Text) : Prop :=
  Repair.isLiteralWord text = true ∨ ∀ c ∈ text.head?, Repair.isNameStart c = false

/-- True of the tokens of documents. -/
def Token.IsSound : Token → Prop
  | punctuation c => IsPunctuation c
  | literal q content => q.Encloses content
  | key word => word ≠ [] ∧ ∀ c ∈ word, Repair.isKeyPoint c
  | atom text => text ≠ [] ∧ (∀ c ∈ text, IsAtomPoint c) ∧ IsNoBareValue text

/-- A mark of punctuation is a token of documents. -/
theorem Token.isSound_punctuation {c : CodePoint} (h : IsPunctuation c) :
    (Token.punctuation c).IsSound :=
  h

/-- A digit is a key character. -/
theorem isKeyPoint_of_isDigit {c : CodePoint} (h : isDigit c) : Repair.isKeyPoint c := by
  have hdigit : c.isAsciiDigit := h
  exact Repair.isKeyPoint_of_isAsciiKey (by simp [Repair.isAsciiKey, hdigit])

/-- The letter of an exponent is a key character. -/
theorem isKeyPoint_of_isExponentMark {c : CodePoint} (h : isExponentMark c) :
    Repair.isKeyPoint c := by
  simp only [isExponentMark, Bool.or_eq_true, decide_eq_true_eq] at h
  rcases h with rfl | rfl <;> exact Repair.isKeyPoint_of_isAsciiKey (by decide)

/-- A number is made of the code points of atoms. -/
theorem SpellsNumeral.isAtomPoint {n : Numeral} {t : Text} (h : SpellsNumeral n t) :
    ∀ c ∈ t, IsAtomPoint c := by
  obtain ⟨fraction, exponent, hwhole, hfraction, hexponent, rfl⟩ := h
  have hdigits : ∀ {digits : Text}, AreDigits digits → ∀ c ∈ digits, IsAtomPoint c :=
    fun h c hc => .inl (isKeyPoint_of_isDigit (h.2 c hc))
  have hsign : ∀ c ∈ (if n.negative then [CodePoint.scalar '-'] else []), IsAtomPoint c := by
    cases n.negative with
    | true => simp [IsAtomPoint]
    | false => simp
  have hfractions : ∀ c ∈ fraction, IsAtomPoint c := by
    rcases hfraction with ⟨-, rfl⟩ | ⟨hd, rfl⟩
    · simp
    · exact List.forall_mem_cons.mpr ⟨by simp [IsAtomPoint], hdigits hd⟩
  have hexponents : ∀ c ∈ exponent, IsAtomPoint c := by
    rcases hexponent with ⟨-, rfl⟩ | ⟨mark, sign, _, digits, -, hd, hmark, rfl, hcases⟩
    · simp
    · refine List.forall_mem_cons.mpr ⟨.inl (isKeyPoint_of_isExponentMark hmark), ?_⟩
      refine List.forall_mem_append.mpr ⟨?_, hdigits hd⟩
      rcases hcases with ⟨-, rfl⟩ | ⟨-, rfl | rfl⟩
      · simp [IsAtomPoint]
      · simp [IsAtomPoint]
      · simp
  simp only [List.forall_mem_append]
  exact ⟨⟨⟨hsign, hdigits hwhole.areDigits⟩, hfractions⟩, hexponents⟩

/-- A number begins with no name. -/
theorem SpellsNumeral.isNoBareValue {n : Numeral} {t : Text} (h : SpellsNumeral n t) :
    IsNoBareValue t := by
  obtain ⟨c, t', rfl, hc⟩ := h.head
  refine .inr fun d hd => ?_
  cases hd
  rcases hc with hc | ⟨rfl, -⟩
  · exact Repair.isNameStart_of_isAsciiDigit hc
  · exact Repair.isNameStart_of_isKeyPoint_eq_false (Repair.isKeyPoint_of_isAsciiMark (by decide))

/-- The words of JSON are made of key characters and are no bare values. -/
theorem isAtomPoint_word :
    ∀ w ∈ [Text.ofString "null", Text.ofString "true", Text.ofString "false"],
      w ≠ [] ∧ (∀ c ∈ w, Repair.isKeyPoint c) ∧ Repair.isLiteralWord w = true := by
  intro w hw
  have hword : w ≠ [] ∧ (∀ c ∈ w, Repair.isAsciiKey c) ∧ Repair.isLiteralWord w = true := by
    revert w
    decide
  exact ⟨hword.1, fun c hc => Repair.isKeyPoint_of_isAsciiKey (hword.2.1 c hc), hword.2.2⟩

/-- Tokens that name a member are tokens of documents. -/
theorem Names.isSound {s : Repair.Settings} {tok : Token} {k : Text} (h : Names s tok k) :
    tok.IsSound := by
  cases h with
  | double h => exact h.encloses
  | single _ h => exact h.encloses
  | bare _ hne hkey => exact ⟨hne, hkey⟩

/-- In strict JSON a member is named by a string between quotation marks. -/
theorem Names.exists_literal {tok : Token} {k : Text} (h : Names .none tok k) :
    ∃ content ps, Spells .double content ps ∧ tok = .literal .double content ∧ k = joined ps := by
  cases h with
  | double h => exact ⟨_, _, h, rfl, rfl⟩
  | single hs => cases hs
  | bare hs => cases hs

/-- The words of JSON are tokens of documents. -/
theorem Token.isSound_word {w : Text}
    (hw : w ∈ [Text.ofString "null", Text.ofString "true", Text.ofString "false"]) :
    (Token.atom w).IsSound := by
  obtain ⟨hne, hkey, hword⟩ := isAtomPoint_word w hw
  exact ⟨hne, fun c hc => .inl (hkey c hc), .inl hword⟩

/-- A comma between sound tokens is sound. -/
theorem isSound_comma {ts ts' : List Token} (h : ∀ tok ∈ ts, tok.IsSound)
    (h' : ∀ tok ∈ ts', tok.IsSound) :
    ∀ tok ∈ ts ++ .punctuation (.scalar ',') :: ts', tok.IsSound :=
  List.forall_mem_append.mpr
    ⟨h, List.forall_mem_cons.mpr ⟨Token.isSound_punctuation (by decide), h'⟩⟩

/-- Brackets around sound tokens are sound, with or without a comma before the closing one. -/
theorem isSound_container {s : Repair.Settings} {ts trail : List Token} {c c' : CodePoint}
    (hc : IsPunctuation c) (hc' : IsPunctuation c') (h : ∀ tok ∈ ts, tok.IsSound)
    (htrail : Trails s trail) :
    ∀ tok ∈ .punctuation c :: (ts ++ (trail ++ [.punctuation c'])), tok.IsSound := by
  have hclose : ∀ tok ∈ [Token.punctuation c'], tok.IsSound :=
    List.forall_mem_singleton.mpr (Token.isSound_punctuation hc')
  refine List.forall_mem_cons.mpr ⟨Token.isSound_punctuation hc, ?_⟩
  rcases htrail with rfl | ⟨-, rfl⟩
  · exact List.forall_mem_append.mpr ⟨h, hclose⟩
  · exact isSound_comma h hclose

/-- A name with a colon before sound tokens is sound. -/
theorem isSound_name {s : Repair.Settings} {tok : Token} {k : Text} {ts : List Token}
    (hk : Names s tok k) (h : ∀ tok ∈ ts, tok.IsSound) :
    ∀ tok' ∈ tok :: .punctuation (.scalar ':') :: ts, tok'.IsSound :=
  List.forall_mem_cons.mpr
    ⟨hk.isSound, List.forall_mem_cons.mpr ⟨Token.isSound_punctuation (by decide), h⟩⟩

/-- The tokens of a phrase are tokens of documents. -/
theorem Derives.isSound {s : Repair.Settings} {n : Nat} {φ : Phrase} {ts : List Token}
    (h : Derives s n φ ts) : ∀ tok ∈ ts, tok.IsSound := by
  induction h with
  | null => exact List.forall_mem_singleton.mpr (Token.isSound_word (by simp))
  | bool b => cases b <;> exact List.forall_mem_singleton.mpr (Token.isSound_word (by simp))
  | number ht =>
    obtain ⟨c, t', htext, -⟩ := ht.head
    rw [List.forall_mem_singleton]
    exact ⟨htext ▸ List.cons_ne_nil c t', ht.isAtomPoint, ht.isNoBareValue⟩
  | string h => exact List.forall_mem_singleton.mpr h.encloses
  | singleString _ h => exact List.forall_mem_singleton.mpr h.encloses
  | emptyArray => simp [Token.IsSound, IsPunctuation]
  | array h htrail ih => exact isSound_container (by decide) (by decide) ih htrail
  | emptyObject => simp [Token.IsSound, IsPunctuation]
  | object h htrail ih => exact isSound_container (by decide) (by decide) ih htrail
  | item h ih => exact ih
  | consItem h h' ih ih' => exact isSound_comma ih ih'
  | member hk h ih => exact isSound_name hk ih
  | consMember hk h h' ih ih' => exact isSound_name hk (isSound_comma ih ih')

/-- No atom is made of gaps. -/
theorem IsAtomPoint.isGap {c : CodePoint} (h : IsAtomPoint c) : isGap c = false := by
  rcases h with h | rfl | rfl | rfl
  · refine Bool.eq_false_of_not_eq_true fun hgap => ?_
    rw [Repair.isKeyPoint_of_isBlank (isBlank_of_isGap hgap)] at h
    cases h
  · decide
  · decide
  · decide

/-- A token begins with a mark of punctuation, a quote or a code point of atoms. -/
theorem Token.IsSound.head_cases {tok : Token} (h : tok.IsSound) :
    ∃ c t, tok.text = c :: t ∧
      (IsPunctuation c ∨ (∃ q : Quote, c = q.point) ∨ IsAtomPoint c) := by
  cases tok with
  | punctuation c => exact ⟨c, [], rfl, .inl h⟩
  | literal q content => exact ⟨q.point, content ++ [q.point], rfl, .inr (.inl ⟨q, rfl⟩)⟩
  | key word =>
    obtain ⟨c, w, rfl⟩ := List.exists_cons_of_ne_nil h.1
    exact ⟨c, w, rfl, .inr (.inr (.inl (h.2 c List.mem_cons_self)))⟩
  | atom text =>
    obtain ⟨c, t, rfl⟩ := List.exists_cons_of_ne_nil h.1
    exact ⟨c, t, rfl, .inr (.inr (h.2.1 c List.mem_cons_self))⟩

/-- A token begins with what is no gap. -/
theorem Token.IsSound.head {tok : Token} (h : tok.IsSound) :
    ∃ c t, tok.text = c :: t ∧ isGap c = false := by
  obtain ⟨c, t, htext, hc | ⟨q, rfl⟩ | hc⟩ := h.head_cases
  · refine ⟨c, t, htext, ?_⟩
    rcases hc with rfl | rfl | rfl | rfl | rfl | rfl <;> decide
  · refine ⟨q.point, t, htext, ?_⟩
    cases q <;> decide
  · exact ⟨c, t, htext, hc.isGap⟩

end Sound

/-- Without comments only blanks of JSON stand between tokens. -/
theorem Gap.isGap {t : Text} (h : Gap false t) : ∀ c ∈ t, Json.isGap c := by
  induction h with
  | nil => simp
  | blank hc h ih => exact List.forall_mem_cons.mpr ⟨hc, ih⟩
  | block hs => cases hs
  | line hs => cases hs

/-- Blanks of JSON may stand between tokens. -/
theorem gap_of_isGap {comments : Bool} {t : Text} (h : ∀ c ∈ t, isGap c) : Gap comments t := by
  induction t with
  | nil => exact .nil
  | cons c t ih =>
    exact .blank (h c List.mem_cons_self) (ih fun d hd => h d (List.mem_cons_of_mem c hd))

/-- Without comments only blanks of JSON stand behind the last token. -/
theorem FinalGap.isGap {t : Text} (h : FinalGap false t) : ∀ c ∈ t, Json.isGap c := by
  rcases h with h | ⟨hs, -⟩
  · exact h.isGap
  · cases hs

/-- A gap in front of what is no gap is skipped. -/
theorem skipGap_append {gap t : Text} (h : ∀ c ∈ gap, isGap c) : skipGap (gap ++ t) = skipGap t :=
  List.dropWhile_append_of_pos h

/-- Nothing is left of a gap that ends the text. -/
theorem Woven.skipGap_nil {t : Text} (h : Woven false [] t) : skipGap t = [] := by
  cases h with
  | nil h => exact List.dropWhile_eq_nil_iff.mpr h.isGap

section Skipping

variable [Alphabet]

/-- The first token stands behind the gap in front of the text. -/
theorem Woven.skipGap_cons {tok : Token} {ts : List Token} {t : Text}
    (h : Woven false (tok :: ts) t) (htok : tok.IsSound) :
    ∃ t', Woven false ts t' ∧ skipGap t = tok.text ++ t' := by
  cases h with
  | @cons gap t' _ _ hgap h =>
    obtain ⟨c, w, htext, hc⟩ := htok.head
    refine ⟨t', h, ?_⟩
    rw [skipGap_append hgap.isGap, htext, List.cons_append, skipGap,
      List.dropWhile_cons_of_neg (by rw [hc]; exact Bool.false_ne_true)]

/-- A mark of punctuation stands behind the gap in front of the text. -/
theorem Woven.skipGap_punctuation {c : CodePoint} (hc : IsPunctuation c) {ts : List Token}
    {t : Text} (h : Woven false (.punctuation c :: ts) t) :
    ∃ t', Woven false ts t' ∧ skipGap t = c :: t' :=
  h.skipGap_cons (Token.isSound_punctuation hc)

/-- A text without its first gap is woven of the same tokens. -/
theorem Woven.skipGap {tok : Token} {ts : List Token} {t : Text} (h : Woven false (tok :: ts) t)
    (htok : tok.IsSound) : Woven false (tok :: ts) (Json.skipGap t) := by
  obtain ⟨t', h', ht⟩ := h.skipGap_cons htok
  rw [ht]
  exact .cons .nil h'

/-- A text has at least as many code points as tokens. -/
theorem Woven.length_le {comments : Bool} {ts : List Token} {t : Text} (h : Woven comments ts t)
    (hts : ∀ tok ∈ ts, tok.IsSound) : ts.length ≤ t.length := by
  induction h with
  | nil => exact Nat.zero_le _
  | @cons gap t tok ts hgap h ih =>
    obtain ⟨c, w, htext, -⟩ := (hts tok List.mem_cons_self).head
    have hi := ih fun tok htok => hts tok (List.mem_cons_of_mem _ htok)
    rw [htext]
    simp only [List.length_cons, List.length_append]
    omega

/-- No text of tokens begins with a byte order mark. -/
theorem Woven.ne_byteOrderMark {tok : Token} {ts : List Token} {t : Text}
    (h : Woven false (tok :: ts) t) (htok : tok.IsSound) (t' : Text) :
    t ≠ .scalar '\ufeff' :: t' := by
  intro heq
  cases h with
  | @cons gap t1 _ _ hgap h =>
    cases gap with
    | nil =>
      obtain ⟨c, w, htext, hc⟩ := htok.head_cases
      rw [htext] at heq
      cases heq
      rcases hc with hc | ⟨q, hc⟩ | hc | hc | hc | hc
      · rcases hc with hc | hc | hc | hc | hc | hc <;> cases hc
      · cases q <;> cases hc
      · have hmark : Repair.isKeyPoint (.scalar '\ufeff') = false :=
          Repair.isKeyPoint_of_isUnseen (by decide)
        rw [hmark] at hc
        cases hc
      · cases hc
      · cases hc
      · cases hc
    | cons c gap =>
      cases heq
      have hc := hgap.isGap _ List.mem_cons_self
      revert hc
      decide

end Skipping

/-- A gap goes on with another one. -/
theorem Gap.append {comments : Bool} {s t : Text} (hs : Gap comments s) (ht : Gap comments t) :
    Gap comments (s ++ t) := by
  induction hs with
  | nil => exact ht
  | blank hc h ih => exact .blank hc ih
  | block hs hbody h ih =>
    rw [List.append_assoc]
    exact .block hs hbody ih
  | line hs hbody hc h ih =>
    simp only [List.cons_append, List.append_assoc]
    exact .line hs hbody hc ih

/-- A gap may stand in front of a text of tokens. -/
theorem Woven.gap_append {comments : Bool} {gap : Text} {ts : List Token} {t : Text}
    (hgap : Gap comments gap) (h : Woven comments ts t) : Woven comments ts (gap ++ t) := by
  cases h with
  | nil h =>
    rcases h with h | ⟨hs, gap', body, hgap', hbody, rfl⟩
    · exact .nil (.inl (hgap.append h))
    · refine .nil (.inr ⟨hs, gap ++ gap', body, hgap.append hgap', hbody, ?_⟩)
      rw [List.append_assoc]
  | cons hgap' h =>
    rw [← List.append_assoc]
    exact .cons (hgap.append hgap') h

/-- True of tokens that a text holds in front of the rest of it. -/
def Weaves (ts : List Token) (t rest : Text) : Prop :=
  ∀ ts', Woven false ts' rest → Woven false (ts ++ ts') t

/-- Tokens in front of others. -/
theorem Weaves.append {ts us : List Token} {t t' rest : Text} (h : Weaves ts t t')
    (h' : Weaves us t' rest) : Weaves (ts ++ us) t rest := by
  intro ts' hrest
  rw [List.append_assoc]
  exact h _ (h' _ hrest)

/-- Tokens behind a gap. -/
theorem Weaves.gap_append {gap : Text} (hgap : ∀ c ∈ gap, isGap c) {ts : List Token}
    {t rest : Text} (h : Weaves ts t rest) : Weaves ts (gap ++ t) rest :=
  fun ts' hrest => (h ts' hrest).gap_append (gap_of_isGap hgap)

/-- Tokens behind the gap that is skipped. -/
theorem Weaves.of_skipGap {ts : List Token} {t rest : Text} (h : Weaves ts (skipGap t) rest) :
    Weaves ts t rest := by
  have ht := List.takeWhile_append_dropWhile (p := isGap) (l := t)
  rw [← ht]
  exact h.gap_append fun c hc => List.mem_takeWhile_imp hc

/-- A token in front. -/
theorem weaves_token (tok : Token) (rest : Text) : Weaves [tok] (tok.text ++ rest) rest :=
  fun _ hrest => .cons .nil hrest

/-- A mark of punctuation in front. -/
theorem weaves_punctuation (c : CodePoint) (rest : Text) :
    Weaves [.punctuation c] (c :: rest) rest :=
  weaves_token (.punctuation c) rest

/-- A mark of punctuation behind the gap that is skipped. -/
theorem weaves_of_skipGap_eq {c : CodePoint} {t rest : Text} (h : skipGap t = c :: rest) :
    Weaves [.punctuation c] t rest := by
  refine .of_skipGap ?_
  rw [h]
  exact weaves_punctuation c rest

/-- A string literal in front. -/
theorem weaves_literal (content rest : Text) :
    Weaves [.literal .double content] (.scalar '"' :: (content ++ .scalar '"' :: rest)) rest := by
  have h := weaves_token (.literal .double content) rest
  simp only [Token.text, Quote.literal, List.cons_append, List.append_assoc,
    List.nil_append] at h
  exact h

end SourcePress.Json
