import SourcePress.Proofs.Document
import SourcePress.Proofs.Lexis.Grammar

/-!
# What requoted literals stand for

A complete literal between single quotes becomes one literal between quotation marks. It is strict
JSON exactly if its content has no raw control character and each backslash in it starts an escape,
an apostrophe allowed behind it, and then it stands for what the content spelled between single
quotes. The grammar spells a content and its requoted form alike, so neither the backslashes that
are left out nor those that are put in shift an escape.
-/

namespace SourcePress.Repair

open Lexis Json

/-- True of a text that begins with what can stand behind the backslash of an escape. -/
inductive StartsEscape : Text → Prop
  /-- The letter of a one-letter escape. -/
  | letter {e c : CodePoint} {t : Text} (he : escaped? e = some c) : StartsEscape (e :: t)
  /-- An apostrophe. -/
  | apostrophe {t : Text} : StartsEscape (.scalar '\'' :: t)
  /-- A `u` with four hexadecimal digits. -/
  | unit {a b c d : CodePoint} {n : Nat} {t : Text} (hn : hexUnit? a b c d = some n) :
      StartsEscape (.scalar 'u' :: a :: b :: c :: d :: t)

/-- True of a content in which each backslash that none escapes starts an escape. -/
def HasValidEscapes (content : Text) : Prop :=
  ∀ front back, content = front ++ .scalar '\\' :: back → ¬Escapes front → StartsEscape back

/-- True of a content that can be read once it is requoted. -/
structure IsReadable (content : Text) : Prop where
  /-- No control character stands in it as it is. -/
  noControl : ∀ c ∈ content, 0x1F < c.value
  /-- Each backslash starts an escape, unless it is escaped itself. -/
  validEscapes : HasValidEscapes content

/-- What requoting makes of a complete literal between single quotes with a content. -/
structure IsRequotingOf [Platform] (content converted : Text) : Prop where
  /-- A scan finds one literal between quotation marks and nothing else. -/
  segments : segments converted = [⟨.string .double, converted, 0⟩]
  /-- The literal is closed. -/
  terminated : isTerminated converted = true
  /-- It is read as strict JSON exactly if its content can be read. -/
  readable : (∃ v, Document.readStrict converted = .ok v) ↔ IsReadable content
  /-- It is read as what the content spells between single quotes. -/
  value : ∀ v, Document.readStrict converted = .ok v ↔
    ∃ ps, Spells .single content ps ∧ v = .str (joined ps)

section Contents

variable {q : Quote} {content t w : Text} {c e : CodePoint} {ps : List Piece}

/-- A code point that is no backslash starts no escape. -/
theorem hasValidEscapes_cons (hescape : c ≠ .scalar '\\') :
    HasValidEscapes (c :: t) ↔ HasValidEscapes t := by
  rw [HasValidEscapes, HasValidEscapes, forall_split_cons]
  simp only [hescape, escapes_cons hescape, false_implies, true_and]

/-- A backslash and what it escapes leave the escapes further behind as they are. -/
theorem hasValidEscapes_escape :
    HasValidEscapes (.scalar '\\' :: e :: t) ↔ StartsEscape (e :: t) ∧ HasValidEscapes t := by
  have hnil : ¬Escapes [] := by simp [escapes_iff]
  have hone : Escapes [.scalar '\\'] := by simp [escapes_iff, Atom.escapes]
  rw [HasValidEscapes, HasValidEscapes, forall_split_cons, forall_split_cons]
  simp only [hnil, hone, escapes_escape, not_true, not_false_iff, true_implies, false_implies,
    implies_true, true_and]

/-- What stands behind the backslash of an escape is no control character. -/
theorem StartsEscape.lt_value (h : StartsEscape (e :: t)) : 0x1F < e.value := by
  cases h with
  | letter he =>
    unfold escaped? at he
    split at he <;> first | decide | cases he
  | apostrophe => decide
  | unit => decide

/-- A plain code point in front of a content can be read with it. -/
theorem isReadable_cons (hescape : c ≠ .scalar '\\') :
    IsReadable (c :: t) ↔ 0x1F < c.value ∧ IsReadable t := by
  constructor
  · rintro ⟨hcontrol, hvalid⟩
    obtain ⟨hc, hcontrol⟩ := List.forall_mem_cons.mp hcontrol
    exact ⟨hc, hcontrol, (hasValidEscapes_cons hescape).mp hvalid⟩
  · rintro ⟨hc, hcontrol, hvalid⟩
    exact ⟨List.forall_mem_cons.mpr ⟨hc, hcontrol⟩, (hasValidEscapes_cons hescape).mpr hvalid⟩

/-- A backslash in front of a content can be read with what it escapes if that starts an escape. -/
theorem isReadable_escape :
    IsReadable (.scalar '\\' :: e :: t) ↔ StartsEscape (e :: t) ∧ IsReadable t := by
  constructor
  · rintro ⟨hcontrol, hvalid⟩
    obtain ⟨hescape, hrest⟩ := hasValidEscapes_escape.mp hvalid
    exact ⟨hescape, fun c hc => hcontrol c (by simp [hc]), hrest⟩
  · rintro ⟨hescape, hcontrol, hrest⟩
    have hboth : ∀ c ∈ e :: t, 0x1F < c.value :=
      List.forall_mem_cons.mpr ⟨hescape.lt_value, hcontrol⟩
    exact ⟨List.forall_mem_cons.mpr ⟨by decide, hboth⟩,
      hasValidEscapes_escape.mpr ⟨hescape, hrest⟩⟩

/-- Plain code points in front of a content can be read with it. -/
theorem isReadable_append (hw : ∀ c ∈ w, 0x1F < c.value ∧ c ≠ .scalar '\\') (h : IsReadable t) :
    IsReadable (w ++ t) := by
  induction w with
  | nil => exact h
  | cons c w ih =>
    obtain ⟨⟨hcontrol, hescape⟩, hw⟩ := List.forall_mem_cons.mp hw
    exact (isReadable_cons hescape).mpr ⟨hcontrol, ih hw⟩

/-- A content that spells something can be read. -/
theorem isReadable_of_spells (h : Spells q content ps) : IsReadable content := by
  induction h with
  | nil => exact ⟨by simp, by simp [HasValidEscapes]⟩
  | plain hcontrol _ hescape _ ih => exact (isReadable_cons hescape).mpr ⟨hcontrol, ih⟩
  | escape he _ ih => exact isReadable_escape.mpr ⟨.letter he, ih⟩
  | apostrophe _ _ ih => exact isReadable_escape.mpr ⟨.apostrophe, ih⟩
  | @unit a b c d n t ps hn _ ih =>
    refine isReadable_escape.mpr ⟨.unit hn, isReadable_append (w := [a, b, c, d]) ?_ ih⟩
    exact fun e he => (plain_of_hexUnit? hn .double e he).imp_right And.right

/-- A content between single quotes that can be read spells something. -/
theorem exists_spells (hcontent : Quote.single.Encloses content) (h : IsReadable content) :
    ∃ ps, Spells .single content ps := by
  induction content, hcontent using encloses_induction with
  | nil => exact ⟨[], .nil⟩
  | plain c t hquote hescape _ ih =>
    obtain ⟨hcontrol, h⟩ := (isReadable_cons hescape).mp h
    obtain ⟨ps, hps⟩ := ih h
    exact ⟨_, .plain hcontrol hquote hescape hps⟩
  | escape e t _ ih =>
    obtain ⟨hstarts, h⟩ := isReadable_escape.mp h
    obtain ⟨ps, hps⟩ := ih h
    cases hstarts with
    | letter he => exact ⟨_, .escape he hps⟩
    | apostrophe => exact ⟨_, .apostrophe rfl hps⟩
    | @unit a b c d n t hn =>
      have hdigits := fun e he => (plain_of_hexUnit? hn .single e he).2.2
      obtain ⟨ps', -, htail⟩ := spells_of_append (w := [a, b, c, d]) hdigits hps
      exact ⟨_, .unit hn htail⟩

/-- A requoted content that begins with a plain code point was so before. -/
theorem requoteContent_eq_cons (hescape : c ≠ .scalar '\\') (hapostrophe : c ≠ .scalar '\'')
    (h : requoteContent content = c :: t) :
    ∃ rest, content = c :: rest ∧ requoteContent rest = t := by
  cases content with
  | nil => cases h
  | cons d content =>
    by_cases hquote : d = .scalar '"'
    · rw [hquote, requoteContent_quote] at h
      exact absurd (List.cons.inj h).1.symm hescape
    · by_cases hd : d = .scalar '\\'
      · subst hd
        cases content with
        | nil => exact absurd (List.cons.inj h).1.symm hescape
        | cons e content =>
          rw [requoteContent_escape] at h
          split at h
          · exact absurd (List.cons.inj h).1.symm hapostrophe
          · exact absurd (List.cons.inj h).1.symm hescape
      · rw [requoteContent_cons hquote hd] at h
        obtain ⟨rfl, ht⟩ := List.cons.inj h
        exact ⟨content, rfl, ht⟩

/-- A requoted content that begins with plain code points was so before. -/
theorem requoteContent_eq_append (hw : ∀ c ∈ w, c ≠ .scalar '\'' ∧ c ≠ .scalar '\\')
    (h : requoteContent content = w ++ t) :
    ∃ rest, content = w ++ rest ∧ requoteContent rest = t := by
  induction w generalizing content with
  | nil => exact ⟨content, rfl, h⟩
  | cons c w ih =>
    obtain ⟨⟨hapostrophe, hescape⟩, hw⟩ := List.forall_mem_cons.mp hw
    obtain ⟨behind, rfl, hbehind⟩ := requoteContent_eq_cons hescape hapostrophe h
    obtain ⟨rest, rfl, hrest⟩ := ih hw hbehind
    exact ⟨rest, rfl, hrest⟩

/-- A content between single quotes spelled what it spells once it is requoted. -/
theorem spells_of_requoteContent (hcontent : Quote.single.Encloses content)
    (h : Spells .double (requoteContent content) ps) : Spells .single content ps := by
  induction content, hcontent using encloses_induction generalizing ps with
  | nil =>
    cases h
    exact .nil
  | plain c t hquote hescape _ ih =>
    by_cases hdouble : c = .scalar '"'
    · rw [hdouble, requoteContent_quote] at h
      cases h with
      | plain _ _ hescape' => exact absurd rfl hescape'
      | escape he h =>
        cases he
        rw [hdouble]
        exact .plain (by decide) (by decide) (by decide) (ih h)
    · rw [requoteContent_cons hdouble hescape] at h
      obtain ⟨ps', rfl, hcontrol, h⟩ := spells_of_cons hescape h
      exact .plain hcontrol hquote hescape (ih h)
  | escape e t _ ih =>
    rw [requoteContent_escape] at h
    split at h
    · next he =>
      obtain ⟨ps', rfl, -, h⟩ := spells_of_cons (by decide) h
      rw [he]
      exact .apostrophe rfl (ih h)
    · generalize hrest : requoteContent t = rest at h
      cases h with
      | plain _ _ hescape => exact absurd rfl hescape
      | escape he h => exact .escape he (ih (hrest ▸ h))
      | apostrophe hq => cases hq
      | @unit a b c d n rest ps hn h =>
        -- Requoting leaves the digits alone, so they stand behind the same backslash as before.
        have hsingle := plain_of_hexUnit? hn .single
        obtain ⟨behind, rfl, hbehind⟩ := requoteContent_eq_append (w := [a, b, c, d])
          (fun e he => (hsingle e he).2) hrest
        have hdouble : Spells .double (a :: b :: c :: d :: rest) _ :=
          spells_append (plain_of_hexUnit? hn .double) h
        rw [← hrest] at hdouble
        obtain ⟨ps', heq, htail⟩ := spells_of_append (fun e he => (hsingle e he).2.2) (ih hdouble)
        rw [List.append_cancel_left heq]
        exact .unit hn htail

/-- A content between single quotes spells what it does once it is requoted. -/
theorem spells_requoteContent_iff (hcontent : Quote.single.Encloses content) :
    Spells .double (requoteContent content) ps ↔ Spells .single content ps :=
  ⟨spells_of_requoteContent hcontent, Spells.requoteContent⟩

end Contents

/-- What begins with a quotation mark is read as the string there. -/
theorem exists_readString_of_readStrict [Platform] {t : Text} {v : Json}
    (h : Document.readStrict (.scalar '"' :: t) = .ok v) :
    ∃ text rest, readString (.scalar '"' :: t) t = .ok (text, rest) ∧ v = .str text := by
  have hskip : skipGap (.scalar '"' :: t) = .scalar '"' :: t :=
    List.dropWhile_cons_of_neg (by decide)
  have hread := Document.readStrict_eq_ok_iff.mp h
  unfold Json.read at hread
  rw [hskip] at hread
  obtain ⟨⟨value, rest⟩, hvalue, hrest⟩ := exists_of_bind_eq_ok hread
  rw [readValue_string] at hvalue
  obtain ⟨⟨text, behind⟩, hstring, heq⟩ := exists_of_map_eq_ok hvalue
  cases heq
  dsimp only at hrest
  split at hrest
  · cases hrest
    exact ⟨text, behind, hstring, rfl⟩
  · cases hrest

/-- A closed literal between quotation marks is strict JSON for what its content spells, and for
nothing else. -/
theorem readStrict_literal [Platform] {content : Text} (h : Quote.double.Encloses content) (v : Json) :
    Document.readStrict (Quote.double.literal content) = .ok v ↔
      ∃ ps, Spells .double content ps ∧ v = .str (joined ps) := by
  constructor
  · intro hread
    obtain ⟨text, rest, hstring, rfl⟩ := exists_readString_of_readStrict hread
    obtain ⟨content', ps, ht, hspells, rfl⟩ := spells_of_readString hstring
    obtain ⟨rfl, -⟩ := h.unique hspells.encloses ht
    exact ⟨ps, hspells, rfl⟩
  · rintro ⟨ps, hspells, rfl⟩
    have hwoven : Woven false [.literal .double content]
        ([] ++ (Quote.double.literal content ++ [])) :=
      .cons .nil (.nil (.inl .nil))
    rw [List.nil_append, List.append_nil] at hwoven
    exact Document.readStrict_document ⟨_, .string hspells, hwoven⟩

/-- Requoting puts the requoted content between quotation marks. -/
theorem requote_literal (content : Text) :
    requote (Quote.single.literal content) = Quote.double.literal (requoteContent content) := by
  rw [requote, Quote.literal, List.drop_one, List.tail_cons, List.dropLast_concat]
  rfl

/-- A complete literal between single quotes becomes one between quotation marks. It is strict JSON
exactly if its content can be read, and then for what the content spells between single quotes. -/
theorem requote_keeps_string [Platform] {content : Text} (hopen : Quote.single.StaysOpen content)
    (hclosed : ¬Escapes content) :
    IsRequotingOf content (requote (Quote.single.literal content)) := by
  have hsingle : Quote.single.Encloses content := (encloses_iff _ _).mpr ⟨hopen, hclosed⟩
  have hdouble := encloses_requoteContent hsingle
  have hvalue : ∀ v, Document.readStrict (requote (Quote.single.literal content)) = .ok v ↔
      ∃ ps, Spells .single content ps ∧ v = .str (joined ps) := by
    intro v
    rw [requote_literal, readStrict_literal hdouble]
    simp only [spells_requoteContent_iff hsingle]
  refine ⟨?_, ?_, ⟨?_, fun h => ?_⟩, hvalue⟩
  · rw [requote_literal, segments_literal hdouble]
  · rw [requote_literal, isTerminated, finalMode_literal hdouble]
    rfl
  · rintro ⟨v, hread⟩
    obtain ⟨ps, hspells, -⟩ := (hvalue v).mp hread
    exact isReadable_of_spells hspells
  · obtain ⟨ps, hspells⟩ := exists_spells hsingle h
    exact ⟨_, (hvalue _).mpr ⟨ps, hspells, rfl⟩⟩

open scoped Platform

/-- A content with an escaped apostrophe, a bare quotation mark and a pair in two escapes. -/
def mixedContent : Text := "\\'\"\\ud83d\\ude00"

/-- The content is requoted, and read with one code point for the pair. -/
theorem requote_mixedContent :
    (Quote.single.StaysOpen mixedContent ∧ ¬Escapes mixedContent) ∧
      requote (Quote.single.literal mixedContent) = "\"'\\\"\\ud83d\\ude00\"" ∧
      Document.readStrict (requote (Quote.single.literal mixedContent)) =
        .ok (.str [.scalar '\'', .scalar '"', .scalar (Char.ofNat 0x1F600)]) := by
  have hencloses : Quote.single.Encloses mixedContent := by decide
  obtain ⟨hopen, hclosed⟩ := (encloses_iff _ _).mp hencloses
  have hspells : Spells .single mixedContent
      [.plain (.scalar '\''), .plain (.scalar '"'), .unit 0xD83D, .unit 0xDE00] :=
    .apostrophe rfl (.plain (by decide) (by decide) (by decide)
      (.unit (by decide) (.unit (by decide) .nil)))
  have hread := ((requote_keeps_string hopen hclosed).value _).mpr ⟨_, hspells, rfl⟩
  exact ⟨⟨hopen, hclosed⟩, by decide, hread⟩

end SourcePress.Repair
