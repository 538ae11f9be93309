import SourcePress.Proofs.Repair.Passes
import SourcePress.Proofs.Repair.Uncomment

/-!
# The text that a repair mends

Before anything is mended a text is trimmed, freed of its comments and trimmed again. The second
trimming takes only live blanks away: comments leave nothing open, and a string literal that the
text leaves open ends as the trimmed text did.
-/

namespace SourcePress.Repair

open Lexis

/-- Blanks as lexemes. -/
def blankLexemes (t : Text) : List Lexeme := t.map fun c => [live c]

@[simp] theorem spelled_blankLexemes (t : Text) : spelled (blankLexemes t) = t := by
  induction t with
  | nil => rfl
  | cons c t ih =>
    rw [blankLexemes] at ih
    rw [blankLexemes, List.map_cons, spelled_cons, ih]
    rfl

variable [Alphabet]

/-- A blank before lexed lexemes is a lexeme, behind a backslash too. -/
theorem Lexed.blank_cons {e : Bool} {c : CodePoint} (hc : c.isBlank) {ls : List Lexeme}
    (h : Lexed false ls) : Lexed e ([live c] :: ls) := by
  have hescape : decide (c = .scalar '\\') = false := decide_eq_false (ne_backslash_of_isBlank hc)
  refine .point (isKeyPoint_of_isBlank hc) (.inr (opening?_of_isBlank hc _)) ?_
  rw [hescape, Bool.and_false]
  exact h

/-- Blanks in front of lexed lexemes are lexemes. -/
theorem Lexed.blanks_append {front : Text} (hfront : ∀ c ∈ front, c.isBlank)
    {ls : List Lexeme} (h : Lexed false ls) : Lexed false (blankLexemes front ++ ls) := by
  induction front with
  | nil => exact h
  | cons c front ih =>
    exact .blank_cons (hfront c List.mem_cons_self)
      (ih fun d hd => hfront d (List.mem_cons_of_mem c hd))

/-- Blanks alone are lexemes, behind a backslash too. -/
theorem lexed_blanks (e : Bool) {back : Text} (hback : ∀ c ∈ back, c.isBlank) :
    Lexed e (blankLexemes back) := by
  induction back generalizing e with
  | nil => exact .nil e
  | cons c back ih =>
    exact .blank_cons (hback c List.mem_cons_self)
      (ih false fun d hd => hback d (List.mem_cons_of_mem c hd))

omit [Alphabet] in
/-- The head of a text before blanks is its own head or a blank. -/
theorem head?_append_blanks {ls : List Lexeme} {back : Text} (hback : ∀ c ∈ back, c.isBlank) :
    ∀ m ∈ (ls ++ blankLexemes back).flatten.head?,
      m ∈ ls.flatten.head? ∨ ∃ c, m = live c ∧ c.isBlank = true := by
  intro m hm
  rw [List.flatten_append, List.head?_append] at hm
  cases hls : ls.flatten.head? with
  | some m' =>
    rw [hls] at hm
    exact .inl hm
  | none =>
    rw [hls, Option.none_or] at hm
    cases back with
    | nil => cases hm
    | cons c back =>
      cases hm
      exact .inr ⟨c, rfl, hback c List.mem_cons_self⟩

omit [Alphabet] in
/-- A code point that opens nothing there opens nothing if blanks follow the text. -/
theorem opening?_append_blanks {ls : List Lexeme} {back : Text} (hback : ∀ c ∈ back, c.isBlank)
    {c : CodePoint} (hopen : Mode.opening? c (spelled ls).head? = none) :
    Mode.opening? c (spelled (ls ++ blankLexemes back)).head? = none :=
  opening?_of_head? (head?_append_blanks hback) hopen

/-- Blanks behind lexemes that end in live code are lexemes. -/
theorem Lexed.append_blanks {e : Bool} {ls : List Lexeme} (h : Lexed e ls)
    (hlive : (modeAfter (.code e) (spelled ls)).region.isLive = true) {back : Text}
    (hback : ∀ c ∈ back, c.isBlank) : Lexed e (ls ++ blankLexemes back) := by
  induction h with
  | nil e => exact lexed_blanks e hback
  | point hkey hopen hrest ih =>
    rw [spelled_point, modeAfter_point hopen] at hlive
    refine .point hkey ?_ (ih hlive)
    rcases hopen with he | hopen
    · exact .inl he
    · exact .inr (opening?_append_blanks hback hopen)
  | word hne hkey hnext hrest ih =>
    rw [spelled_cons, points_map_mark, modeAfter_word hne hkey] at hlive
    refine .word hne hkey ?_ (ih hlive)
    intro m hm
    rcases head?_append_blanks hback m hm with hm' | ⟨c, rfl, hc⟩
    · exact hnext m hm'
    · exact isKeyPoint_of_isBlank hc
  | literal hq hrest ih =>
    rw [spelled_cons, Region.points_construct, modeAfter_literal hq] at hlive
    exact .literal hq (ih hlive)
  | unclosedLiteral hq =>
    rw [spelled_cons, spelled_nil, List.append_nil, Region.points_construct,
      modeAfter_unclosed hq] at hlive
    cases hlive
  | @line body rest hbody hnext hrest ih =>
    rw [spelled_cons, Region.points_construct, modeAfter_append, (scanTo_line hbody _).2] at hlive
    cases hr : spelled rest with
    | nil =>
      rw [hr] at hlive
      cases hlive
    | cons c t =>
      have hc : c.isLineEnd := hnext c (by rw [hr]; rfl)
      rw [hr, (scanFrom_lineComment_of_isLineEnd hc t).2, ← hr] at hlive
      have hhead : (spelled (rest ++ blankLexemes back)).head? = some c := by
        rw [spelled_append, hr]
        rfl
      exact .line hbody (fun d hd => by cases hhead.symm.trans hd; exact hc) (ih hlive)
  | block hb hrest ih =>
    rw [spelled_cons, Region.points_construct, modeAfter_block hb] at hlive
    exact .block hb (ih hlive)
  | unclosedBlock hb =>
    rw [spelled_cons, spelled_nil, List.append_nil, Region.points_construct,
      modeAfter_unclosedBlock hb] at hlive
    cases hlive

/-- A text without comments ends in live code or in a string literal. -/
theorem Lexed.isLive_or_isString {e : Bool} {ls : List Lexeme} (h : Lexed e ls)
    (hcomment : ∀ m ∈ ls.flatten, m.isComment = false) :
    (modeAfter (.code e) (spelled ls)).region.isLive = true ∨
      (modeAfter (.code e) (spelled ls)).region.isString = true := by
  induction h with
  | nil => exact .inl rfl
  | point hkey hopen hrest ih =>
    rw [spelled_point, modeAfter_point hopen]
    exact ih fun m hm => hcomment m (by simp [hm])
  | word hne hkey hnext hrest ih =>
    rw [spelled_cons, points_map_mark, modeAfter_word hne hkey]
    exact ih fun m hm => hcomment m (by simp [hm])
  | literal hq hrest ih =>
    rw [spelled_cons, Region.points_construct, modeAfter_literal hq]
    exact ih fun m hm => hcomment m (by simp [hm])
  | unclosedLiteral hq =>
    rw [spelled_cons, spelled_nil, List.append_nil, Region.points_construct,
      modeAfter_unclosed hq]
    exact .inr rfl
  | line =>
    exact absurd (hcomment ⟨.scalar '/', .lineComment, true⟩ (by simp [Region.construct]))
      (by decide)
  | block =>
    exact absurd (hcomment ⟨.scalar '/', .blockComment, true⟩
      (by simp [Region.construct, blockText])) (by decide)
  | unclosedBlock =>
    exact absurd (hcomment ⟨.scalar '/', .blockComment, true⟩ (by simp [Region.construct]))
      (by decide)

omit [Alphabet] in
/-- A text that ends in a string literal has a last code point. -/
theorem getLast?_or_of_isString {e : Bool} {t : Text}
    (h : (modeAfter (.code e) t).region.isString = true) (c : Option CodePoint) :
    t.getLast?.or c = t.getLast? := by
  cases t with
  | nil => cases h
  | cons d t => rw [List.getLast?_cons, Option.some_or]

/-- A text that ends in a string literal ends alike without its comments. -/
theorem getLast?_uncomment {e : Bool} {ls : List Lexeme} (h : Lexed e ls)
    (hstring : (modeAfter (.code e) (spelled (uncomment ls))).region.isString = true) :
    (spelled (uncomment ls)).getLast? = (spelled ls).getLast? := by
  induction h with
  | nil => rfl
  | point hkey hopen hrest ih =>
    have hmode := modeAfter_point (hopen.imp_right (opening?_uncomment hrest))
    rw [uncomment_cons, uncommented_point, List.singleton_append, spelled_point, hmode] at hstring
    rw [uncomment_cons, uncommented_point, List.singleton_append, spelled_cons, spelled_cons,
      List.getLast?_append, List.getLast?_append, ih hstring]
  | word hne hkey hnext hrest ih =>
    rw [uncomment_cons, uncommented_word, List.singleton_append, spelled_cons, points_map_mark,
      modeAfter_word hne hkey] at hstring
    rw [uncomment_cons, uncommented_word, List.singleton_append, spelled_cons, spelled_cons,
      List.getLast?_append, List.getLast?_append, ih hstring]
  | literal hq hrest ih =>
    rw [uncomment_cons, uncommented_string, List.singleton_append, spelled_cons,
      Region.points_construct, modeAfter_literal hq] at hstring
    rw [uncomment_cons, uncommented_string, List.singleton_append, spelled_cons, spelled_cons,
      List.getLast?_append, List.getLast?_append, ih hstring]
  | unclosedLiteral => rw [uncomment_cons, uncommented_string]; rfl
  | line hbody hnext hrest ih =>
    rw [uncomment_cons, uncommented_line, List.nil_append] at hstring ⊢
    rw [spelled_cons, List.getLast?_append, ← ih hstring, getLast?_or_of_isString hstring]
  | block hb hrest ih =>
    rw [uncomment_cons, blockText, uncommented_block, List.singleton_append, spelled_point,
      modeAfter, (read_blank (by decide) _).2] at hstring
    rw [uncomment_cons, blockText, uncommented_block, List.singleton_append, spelled_cons,
      spelled_cons, List.getLast?_append, List.getLast?_append, ← ih hstring,
      getLast?_or_of_isString hstring, getLast?_or_of_isString hstring]
  | unclosedBlock =>
    rw [uncomment_cons, uncommented_block, uncomment_nil, List.append_nil, spelled_point,
      spelled_nil, modeAfter, (read_blank (by decide) _).2] at hstring
    cases hstring

/-- Nothing that is left of lexemes without comments is in a comment. -/
theorem isComment_uncomment {ls : List Lexeme} (hs : ∀ l ∈ ls, Shape l) :
    ∀ m ∈ (uncomment ls).flatten, m.isComment = false := by
  intro m hm
  obtain ⟨l', hl', hm⟩ := List.mem_flatten.mp hm
  obtain ⟨l, hl, hl'⟩ := List.mem_flatMap.mp hl'
  cases hs l hl with
  | point => simp_all [Mark.isComment, Region.isComment]
  | word =>
    rw [uncommented_word, List.mem_singleton] at hl'
    subst hl'
    obtain ⟨c, _, rfl⟩ := List.mem_map.mp hm
    rfl
  | @construct r c t hr =>
    cases r with
    | code => exact absurd rfl hr
    | string q =>
      rw [uncommented_string, List.mem_singleton] at hl'
      subst hl'
      rcases List.mem_cons.mp hm with rfl | hm
      · rfl
      · obtain ⟨d, _, rfl⟩ := List.mem_map.mp hm
        rfl
    | lineComment => simp at hl'
    | blockComment => simp_all [Mark.isComment, Region.isComment]

/-- A text that blanks were trimmed from behind was not left in a string literal. -/
theorem isString_uncomment_eq_false {t front text back : Text}
    (hsplit : spelled (uncomment (lexemes (scan t.trim))) = front ++ text ++ back)
    (hback : ∀ c ∈ back, c.isBlank) (hne : back ≠ []) :
    (finalMode (spelled (uncomment (lexemes (scan t.trim))))).region.isString = false := by
  refine Bool.eq_false_of_not_eq_true fun hstring => ?_
  obtain ⟨c, back, rfl⟩ := List.exists_cons_of_ne_nil hne
  have hlast := getLast?_uncomment (lexed_lexemes t.trim) hstring
  rw [hsplit, spelled_lexemes, List.getLast?_append, List.getLast?_cons, Option.some_or] at hlast
  have hmem : back.getLast?.getD c ∈ c :: back := by
    rw [← List.getLastD_eq_getLast?]
    exact List.getLastD_mem_cons
  have hblank := Text.getLast?_trim t _ hlast.symm
  rw [hback _ hmem] at hblank
  cases hblank

/-- Where blanks were trimmed from behind, live code ends without its comments. -/
theorem isLive_stripComments {t front back : Text}
    (hsplit : spelled (uncomment (lexemes (scan t.trim))) =
      front ++ stripComments t.trim ++ back)
    (hfront : ∀ c ∈ front, c.isBlank) (hback : ∀ c ∈ back, c.isBlank) (hne : back ≠ [])
    (hcomment : ∀ m ∈ (lexemes (scan (stripComments t.trim))).flatten, m.isComment = false) :
    (finalMode (stripComments t.trim)).region.isLive = true := by
  have hcases := (lexed_lexemes (stripComments t.trim)).isLive_or_isString hcomment
  rw [spelled_lexemes] at hcases
  refine hcases.resolve_right fun hstring => ?_
  have hend := isString_uncomment_eq_false hsplit hback hne
  rw [hsplit, (scan_between hfront hback).2] at hend
  cases hmode : finalMode (stripComments t.trim) with
  | string q e =>
    rw [hmode, isString_modeAfter_blanks q e hback] at hend
    cases hend
  | _ =>
    rw [← Mode.start, ← finalMode, hmode] at hstring
    cases hstring

/-- The text that is left without comments has the lexemes that are left, blanks at its ends
aside. -/
theorem exists_blanks_stripComments (t : Text) :
    ∃ front back : Text, (∀ c ∈ front, c.isBlank) ∧ (∀ c ∈ back, c.isBlank) ∧
      uncomment (lexemes (scan t.trim)) =
        blankLexemes front ++ lexemes (scan (stripComments t.trim)) ++ blankLexemes back := by
  have hls := lexed_lexemes t.trim
  have hstrip := stripComments_eq t.trim
  obtain ⟨front, back, hsplit, hfront, hback⟩ :=
    Text.exists_trim (spelled (uncomment (lexemes (scan t.trim))))
  rw [← hstrip] at hsplit
  have hinner := lexed_lexemes (stripComments t.trim)
  have hscan : (uncomment (lexemes (scan t.trim))).flatten =
      front.map live ++ (scan (stripComments t.trim) ++
        scanFrom (finalMode (stripComments t.trim)) back) := by
    rw [← (scan_between hfront hback).1, ← hsplit]
    exact hls.uncomment.scanFrom_spelled.symm
  have hcomment : ∀ m ∈ (lexemes (scan (stripComments t.trim))).flatten, m.isComment = false := by
    intro m hm
    refine isComment_uncomment hls.shape m ?_
    rw [hscan, ← flatten_lexemes (scan (stripComments t.trim))]
    exact List.mem_append_right _ (List.mem_append_left _ hm)
  have hjoined : Lexed false
      (blankLexemes front ++ (lexemes (scan (stripComments t.trim)) ++ blankLexemes back)) := by
    refine Lexed.blanks_append hfront ?_
    by_cases hne : back = []
    · rw [hne, blankLexemes, List.map_nil, List.append_nil]
      exact hinner
    · refine hinner.append_blanks ?_ hback
      rw [spelled_lexemes]
      exact isLive_stripComments hsplit hfront hback hne hcomment
  have hspelled : spelled (blankLexemes front ++
      (lexemes (scan (stripComments t.trim)) ++ blankLexemes back)) =
      spelled (uncomment (lexemes (scan t.trim))) := by
    rw [spelled_append, spelled_append, spelled_blankLexemes, spelled_blankLexemes,
      spelled_lexemes, hsplit, List.append_assoc]
  refine ⟨front, back, hfront, hback, ?_⟩
  rw [List.append_assoc, ← hjoined.lexemes_scan, hspelled, hls.uncomment.lexemes_scan]

end SourcePress.Repair
