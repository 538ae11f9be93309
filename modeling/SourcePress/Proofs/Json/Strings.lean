import SourcePress.Json.Writer
import SourcePress.Proofs.Json.Grammar
import SourcePress.Proofs.Repair.KeyPoint
import SourcePress.Repair.Quotes

/-!
# String literals: grammar, reader, writer and requoting

The reader settles escaped halves from the right and the grammar joins them from the left, which
comes to the same, since no unit is both a first and a second half. What the writer puts between
quotation marks spells the text that was written, and a requoted content spells what it did before.
-/

namespace SourcePress.Json

open Lexis

/-- A hexadecimal digit is told by its number. -/
theorem value_of_hexValue? {c : CodePoint} {k : Nat} (h : hexValue? c = some k) :
    0x30 ≤ c.value ∧ c.value ≤ 0x39 ∨ 0x41 ≤ c.value ∧ c.value ≤ 0x46 ∨
      0x61 ≤ c.value ∧ c.value ≤ 0x66 := by
  unfold hexValue? at h
  split_ifs at h <;> omega

/-- The four digits of a unit are hexadecimal. -/
theorem hexValue?_of_hexUnit? {a b c d : CodePoint} {n : Nat} (h : hexUnit? a b c d = some n) :
    ∀ e ∈ [a, b, c, d], ∃ k, hexValue? e = some k := by
  unfold hexUnit? at h
  cases ha : hexValue? a with
  | none => simp [ha] at h
  | some =>
    cases hb : hexValue? b with
    | none => simp [ha, hb] at h
    | some =>
      cases hc : hexValue? c with
      | none => simp [ha, hb, hc] at h
      | some =>
        cases hd : hexValue? d with
        | none => simp [ha, hb, hc, hd] at h
        | some => simp [ha, hb, hc, hd]

/-- No hexadecimal digit is a quote or a backslash. -/
theorem ne_of_hexValue? {c : CodePoint} {k : Nat} (h : hexValue? c = some k) (q : Quote) :
    c ≠ q.point ∧ c ≠ .scalar '\\' := by
  have hv := value_of_hexValue? h
  constructor
  · rintro rfl
    cases q <;> revert hv <;> decide
  · rintro rfl
    revert hv
    decide

/-- No digit of a unit is a quote or a backslash. -/
theorem ne_of_hexUnit? {a b c d : CodePoint} {n : Nat} (h : hexUnit? a b c d = some n)
    (q : Quote) : ∀ e ∈ [a, b, c, d], e ≠ q.point ∧ e ≠ .scalar '\\' := by
  intro e he
  obtain ⟨k, hk⟩ := hexValue?_of_hexUnit? h e he
  exact ne_of_hexValue? hk q

/-- What is spelled between quotes is enclosed by them. -/
theorem Spells.encloses {q : Quote} {content : Text} {ps : List Piece} (h : Spells q content ps) :
    q.Encloses content := by
  unfold Quote.Encloses
  induction h with
  | nil => rfl
  | plain hcontrol hquote hescape h ih => rw [escapeAfter?_cons hquote hescape, ih]
  | escape he h ih => rw [escapeAfter?_escape, ih]
  | apostrophe hq h ih => rw [escapeAfter?_escape, ih]
  | @unit a b c d n t ps hn h ih =>
    have ha := ne_of_hexUnit? hn q a (by simp)
    have hb := ne_of_hexUnit? hn q b (by simp)
    have hc := ne_of_hexUnit? hn q c (by simp)
    have hd := ne_of_hexUnit? hn q d (by simp)
    rw [escapeAfter?_escape, escapeAfter?_cons ha.1 ha.2, escapeAfter?_cons hb.1 hb.2,
      escapeAfter?_cons hc.1 hc.2, escapeAfter?_cons hd.1 hd.2, ih]

section Plain

variable {q : Quote} {c : CodePoint} {t w : Text} {ps : List Piece}

/-- Plain code points in front of a content are spelled as they stand. -/
theorem spells_append (hw : ∀ c ∈ w, 0x1F < c.value ∧ c ≠ q.point ∧ c ≠ .scalar '\\')
    (h : Spells q t ps) : Spells q (w ++ t) (w.map .plain ++ ps) := by
  induction w with
  | nil => exact h
  | cons c w ih =>
    obtain ⟨⟨hcontrol, hquote, hescape⟩, hw⟩ := List.forall_mem_cons.mp hw
    exact .plain hcontrol hquote hescape (ih hw)

/-- What a plain code point in front of a content spells is the code point itself. -/
theorem spells_of_cons (hescape : c ≠ .scalar '\\') (h : Spells q (c :: t) ps) :
    ∃ ps', ps = .plain c :: ps' ∧ 0x1F < c.value ∧ Spells q t ps' := by
  cases h with
  | plain hcontrol _ _ h => exact ⟨_, rfl, hcontrol, h⟩
  | _ => exact absurd rfl hescape

/-- What plain code points in front of a content spell are the code points themselves. -/
theorem spells_of_append (hw : ∀ c ∈ w, c ≠ .scalar '\\') (h : Spells q (w ++ t) ps) :
    ∃ ps', ps = w.map .plain ++ ps' ∧ Spells q t ps' := by
  induction w generalizing ps with
  | nil => exact ⟨ps, rfl, h⟩
  | cons c w ih =>
    obtain ⟨hescape, hw⟩ := List.forall_mem_cons.mp hw
    obtain ⟨behind, rfl, -, hbehind⟩ := spells_of_cons hescape h
    obtain ⟨ps', rfl, htail⟩ := ih hw hbehind
    exact ⟨ps', rfl, htail⟩

/-- A digit of a unit is a plain code point between quotes of either kind. -/
theorem plain_of_hexUnit? {a b c d : CodePoint} {n : Nat} (h : hexUnit? a b c d = some n)
    (q : Quote) : ∀ e ∈ [a, b, c, d], 0x1F < e.value ∧ e ≠ q.point ∧ e ≠ .scalar '\\' := by
  intro e he
  obtain ⟨k, hk⟩ := hexValue?_of_hexUnit? h e he
  have hvalue := value_of_hexValue? hk
  exact ⟨by omega, ne_of_hexUnit? h q e he⟩

end Plain

/-- The pieces that the reader makes of the pieces of a content. -/
def settled : List Piece → List Piece
  | [] => []
  | .plain c :: rest => .plain c :: settled rest
  | .unit n :: rest => attach n (settled rest)

/-- A unit that is no first half stands alone. -/
theorem joined_unit {n : Nat} (h : isHighHalf n = false) (rest : List Piece) :
    joined (.unit n :: rest) = (Piece.unit n).point :: joined rest := by
  rcases rest with _ | ⟨c | low, rest⟩
  · rfl
  · rfl
  · rw [joined, h, Bool.false_and, if_neg Bool.false_ne_true]

/-- No second half is a first half. -/
theorem isHighHalf_of_isLowHalf {n : Nat} (h : isLowHalf n = true) : isHighHalf n = false := by
  simp only [isLowHalf, isHighHalf, Bool.and_eq_true, decide_eq_true_eq, Bool.and_eq_false_iff,
    decide_eq_false_iff_not] at h ⊢
  omega

/-- A unit that is no first half is attached to nothing. -/
theorem attach_of_not_high {n : Nat} (h : isHighHalf n = false) (pieces : List Piece) :
    attach n pieces = .unit n :: pieces := by
  unfold attach
  split
  · rw [h, Bool.false_and, if_neg Bool.false_ne_true]
  · rfl

/-- A unit before pieces that begin with none stands alone. -/
theorem attach_plain (n : Nat) (c : CodePoint) (pieces : List Piece) :
    attach n (.plain c :: pieces) = .unit n :: .plain c :: pieces := rfl

/-- Attaching leaves the unit in front or makes a pair. -/
theorem attach_cases (n : Nat) (pieces : List Piece) :
    attach n pieces = .unit n :: pieces ∨ ∃ c rest, attach n pieces = .plain c :: rest := by
  unfold attach
  split
  · split
    · exact .inr ⟨_, _, rfl⟩
    · exact .inl rfl
  · exact .inl rfl

/-- Settled pieces stand one by one for what the pieces stand for. -/
theorem map_point_settled (ps : List Piece) : (settled ps).map Piece.point = joined ps := by
  fun_induction joined ps with
  | case1 => rfl
  | case2 high low rest hpair ih =>
    obtain ⟨-, hlow⟩ := Bool.and_eq_true_iff.mp hpair
    rw [settled, settled, attach_of_not_high (isHighHalf_of_isLowHalf hlow), attach, hpair,
      if_pos rfl, List.map_cons, ih]
    rfl
  | case3 high low rest hpair ih =>
    have hfalse : (isHighHalf high && isLowHalf low) = false := Bool.eq_false_of_not_eq_true hpair
    have hattach : attach high (settled (.unit low :: rest)) =
        .unit high :: settled (.unit low :: rest) := by
      rcases attach_cases low (settled rest) with h | ⟨c, rest', h⟩
      · rw [settled, h, attach, hfalse, if_neg Bool.false_ne_true]
      · rw [settled, h, attach_plain]
    rw [settled, hattach, List.map_cons, ih]
  | case4 piece rest hnot ih =>
    cases piece with
    | plain c => rw [settled, List.map_cons, ih]
    | unit n =>
      have hattach : attach n (settled rest) = .unit n :: settled rest := by
        rcases rest with _ | ⟨c | low, rest⟩
        · rfl
        · rfl
        · exact absurd rfl (hnot n low rest rfl)
      rw [settled, hattach, List.map_cons, ih]

/-- The reader reads what the grammar spells. -/
theorem readPieces_spells {content : Text} {ps : List Piece} (h : Spells .double content ps)
    (opening rest : Text) :
    readPieces opening (content ++ .scalar '"' :: rest) = .ok (settled ps, rest) := by
  induction h with
  | nil =>
    rw [List.nil_append, readPieces.eq_def]
    rfl
  | @plain c t ps hcontrol hquote hescape h ih =>
    have hquote' : c ≠ .scalar '"' := hquote
    rw [List.cons_append, readPieces.eq_def]
    dsimp only
    rw [if_neg hquote', if_neg hescape, if_neg (by omega), ih]
    rfl
  | @escape e c t ps he h ih =>
    have hunit : e ≠ .scalar 'u' := by
      rintro rfl
      cases he
    rw [List.cons_append, List.cons_append, readPieces.eq_def]
    dsimp only
    rw [if_neg (by decide), if_pos rfl]
    split
    · next heq => cases heq
    · next heq => exact absurd (List.cons.inj heq).1 hunit
    · next heq => exact absurd (List.cons.inj heq).1 hunit
    · next heq =>
      cases heq
      rw [he]
      dsimp only
      rw [ih]
      rfl
  | apostrophe hq h ih => cases hq
  | @unit a b c d n t ps hn h ih =>
    have hmore : (t ++ .scalar '"' :: rest).isEmpty = false := by simp
    rw [List.cons_append, readPieces.eq_def]
    dsimp only
    rw [if_neg (by decide), if_pos rfl]
    simp only [List.cons_append]
    rw [hn]
    dsimp only
    rw [hmore, if_neg Bool.false_ne_true, ih]
    rfl

/-- What the reader reads is spelled by the grammar. -/
theorem spells_of_readPieces {opening t rest : Text} {pieces : List Piece}
    (h : readPieces opening t = .ok (pieces, rest)) :
    ∃ content ps, t = content ++ .scalar '"' :: rest ∧ Spells .double content ps ∧
      pieces = settled ps := by
  fun_induction readPieces opening t generalizing pieces with
  | case1 => cases h
  | case2 rest' =>
    cases h
    exact ⟨[], [], rfl, .nil, rfl⟩
  | case3 => cases h
  | case4 a b d e rest' n hn => cases h
  | case5 a b d e rest' n hn hmore _ ih =>
    obtain ⟨read, hread, hpieces⟩ := exists_of_map_eq_ok h
    cases hpieces
    obtain ⟨content, ps, rfl, hspells, hps⟩ := ih hread
    exact ⟨_, _, rfl, .unit hn hspells, by rw [settled, ← hps]⟩
  | case6 => cases h
  | case7 => cases h
  | case8 e rest' _ _ p hp _ ih =>
    obtain ⟨read, hread, hpieces⟩ := exists_of_map_eq_ok h
    cases hpieces
    obtain ⟨content, ps, rfl, hspells, hps⟩ := ih hread
    exact ⟨_, _, rfl, .escape hp hspells, by rw [settled, ← hps]⟩
  | case9 => cases h
  | case10 => cases h
  | case11 c rest' hquote hescape hcontrol ih =>
    obtain ⟨read, hread, hpieces⟩ := exists_of_map_eq_ok h
    cases hpieces
    obtain ⟨content, ps, rfl, hspells, hps⟩ := ih hread
    exact ⟨_, _, rfl, .plain (by omega) hquote hescape hspells, by rw [settled, ← hps]⟩

/-- The reader reads a spelled string as the text that it stands for. -/
theorem readString_spells {content : Text} {ps : List Piece} (h : Spells .double content ps)
    (opening rest : Text) :
    readString opening (content ++ .scalar '"' :: rest) = .ok (joined ps, rest) := by
  rw [readString, readPieces_spells h, ← map_point_settled]
  rfl

/-- A string that the reader reads is spelled as the text that was read. -/
theorem spells_of_readString {opening t rest text : Text}
    (h : readString opening t = .ok (text, rest)) :
    ∃ content ps, t = content ++ .scalar '"' :: rest ∧ Spells .double content ps ∧
      text = joined ps := by
  rw [readString] at h
  obtain ⟨⟨pieces, behind⟩, hread, htext⟩ := exists_of_map_eq_ok h
  cases htext
  obtain ⟨content, ps, ht, hspells, hps⟩ := spells_of_readPieces hread
  exact ⟨content, ps, ht, hspells, by rw [← map_point_settled, ← hps]⟩

/-- A code point that is neither a quotation mark nor a backslash is requoted as it stands. -/
theorem requoteContent_cons {c : CodePoint} (hquote : c ≠ .scalar '"')
    (hescape : c ≠ .scalar '\\') (t : Text) :
    Repair.requoteContent (c :: t) = c :: Repair.requoteContent t := by
  cases t with
  | nil => simp [Repair.requoteContent, hquote]
  | cons d t => rw [Repair.requoteContent, if_neg hescape, if_neg hquote]; rfl

/-- A quotation mark gets a backslash. -/
theorem requoteContent_quote (t : Text) :
    Repair.requoteContent (.scalar '"' :: t) =
      .scalar '\\' :: .scalar '"' :: Repair.requoteContent t := by
  cases t with
  | nil => rfl
  | cons d t => rfl

/-- An escape stays as it is written, save that an apostrophe needs none. -/
theorem requoteContent_escape (e : CodePoint) (t : Text) :
    Repair.requoteContent (.scalar '\\' :: e :: t) =
      (if e = .scalar '\'' then [.scalar '\''] else [.scalar '\\', e]) ++
        Repair.requoteContent t := by
  rw [Repair.requoteContent, if_pos rfl]

/-- A requoted content spells what it did between single quotes. -/
theorem Spells.requoteContent {content : Text} {ps : List Piece} (h : Spells .single content ps) :
    Spells .double (Repair.requoteContent content) ps := by
  induction h with
  | nil => exact .nil
  | @plain c t ps hcontrol hquote hescape h ih =>
    by_cases hdouble : c = .scalar '"'
    · rw [hdouble, requoteContent_quote]
      exact .escape rfl ih
    · rw [requoteContent_cons hdouble hescape]
      exact .plain hcontrol hdouble hescape ih
  | @escape e c t ps he h ih =>
    have hapostrophe : e ≠ .scalar '\'' := by
      rintro rfl
      cases he
    rw [requoteContent_escape, if_neg hapostrophe]
    exact .escape he ih
  | apostrophe hq h ih =>
    rw [requoteContent_escape, if_pos rfl]
    exact .plain (by decide) (by decide) (by decide) ih
  | @unit a b c d n t ps hn h ih =>
    have ha := ne_of_hexUnit? hn .double a (by simp)
    have hb := ne_of_hexUnit? hn .double b (by simp)
    have hc := ne_of_hexUnit? hn .double c (by simp)
    have hd := ne_of_hexUnit? hn .double d (by simp)
    rw [requoteContent_escape, if_neg (by decide), requoteContent_cons ha.1 ha.2,
      requoteContent_cons hb.1 hb.2, requoteContent_cons hc.1 hc.2, requoteContent_cons hd.1 hd.2]
    exact .unit hn ih

/-- A key spells itself between quotation marks. -/
theorem spells_of_isKeyPoint [Alphabet] {w : Text} (hkey : ∀ c ∈ w, Repair.isKeyPoint c) :
    Spells .double w (w.map .plain) := by
  induction w with
  | nil => exact .nil
  | cons c w ih =>
    have hc := hkey c List.mem_cons_self
    exact .plain (Repair.lt_value_of_isKeyPoint hc) (Repair.ne_of_isKeyPoint hc (by decide))
      (Repair.ne_of_isKeyPoint hc (by decide)) (ih fun d hd => hkey d (List.mem_cons_of_mem c hd))

/-- Plain pieces stand for their code points. -/
@[simp] theorem joined_plain (t : Text) : joined (t.map .plain) = t := by
  induction t with
  | nil => rfl
  | cons c t ih => rw [List.map_cons, joined.eq_def]; exact congrArg _ ih

/-- The number that four hexadecimal digits stand for. -/
def hexNumber? : Text → Option Nat
  | [a, b, c, d] => hexUnit? a b c d
  | _ => none

/-- A control character is written with the digits of its number. -/
theorem hexNumber?_ofHex : ∀ n < 0x20, hexNumber? (Text.ofHex 4 n) = some n := by
  decide

/-- A number below the surrogates is that of its code point. -/
theorem point_unit {c : CodePoint} (h : c.value < 0x20) : (Piece.unit c.value).point = c := by
  have hne : ¬(0xD800 ≤ c.value ∧ c.value < 0xE000) := by omega
  rw [Piece.point, CodePoint.ofNat?, dif_neg hne, if_pos (by omega)]
  refine CodePoint.value_injective ?_
  have htoNat : ∀ n < 0x20, (Char.ofNat n).toNat = n := by decide
  exact htoNat c.value h

/-- What the writer makes of a code point is a piece that stands for it. -/
theorem spells_writePoint (c : CodePoint) {t : Text} {ps : List Piece} (h : Spells .double t ps) :
    ∃ piece, Spells .double (writePoint c ++ t) (piece :: ps) ∧
      joined (piece :: ps) = c :: joined ps := by
  have hplain : joined (.plain c :: ps) = c :: joined ps := by rw [joined.eq_def]; rfl
  unfold writePoint
  split
  · exact ⟨_, .escape rfl h, hplain⟩
  · exact ⟨_, .escape rfl h, hplain⟩
  · exact ⟨_, .escape rfl h, hplain⟩
  · exact ⟨_, .escape rfl h, hplain⟩
  · exact ⟨_, .escape rfl h, hplain⟩
  · exact ⟨_, .escape rfl h, hplain⟩
  · exact ⟨_, .escape rfl h, hplain⟩
  · next hquote hescape _ _ _ _ _ =>
    split
    · next hcontrol =>
      have hhex := hexNumber?_ofHex c.value hcontrol
      unfold hexNumber? at hhex
      split at hhex
      · next a b d e hdigits =>
        have hlow : isHighHalf c.value = false := by
          simp only [isHighHalf, Bool.and_eq_false_iff, decide_eq_false_iff_not]
          omega
        refine ⟨.unit c.value, ?_, by rw [joined_unit hlow, point_unit hcontrol]⟩
        rw [hdigits]
        exact .unit hhex h
      · cases hhex
    · exact ⟨_, .plain (by omega) hquote hescape h, hplain⟩

/-- What the writer puts between quotation marks spells the text that was written. -/
theorem spells_flatMap_writePoint (t : Text) :
    ∃ ps, Spells .double (t.flatMap writePoint) ps ∧ joined ps = t := by
  induction t with
  | nil => exact ⟨[], .nil, rfl⟩
  | cons c t ih =>
    obtain ⟨ps, hspells, hjoined⟩ := ih
    obtain ⟨piece, hspells', hjoined'⟩ := spells_writePoint c hspells
    refine ⟨piece :: ps, ?_, by rw [hjoined', hjoined]⟩
    rw [List.flatMap_cons]
    exact hspells'

end SourcePress.Json
