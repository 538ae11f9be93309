import SourcePress.Proofs.Repair.Laid
import SourcePress.Proofs.Repair.Passes
import SourcePress.Proofs.Repair.Tokens

/-!
# Mending what tokens are laid out in

The neighbours of a token's lexemes, blanks passed over, are the ends of the tokens next to it. So
to mend the lexemes of a document without comments is to mend its tokens. Inside an atom nothing is
mended, and no word of a document is a bare value.
-/

namespace SourcePress.Repair

open Lexis Json

section Remedies

variable {s : Settings} {before after : Neighbour}

theorem remedies_drops : (remedies s).drops before after = true ↔
    s.removeTrailingCommas = true ∧ Closes (after CodePoint.isSpacing) := by
  cases hs : s.removeTrailingCommas <;>
    simp [remedies, Remedies.join, Remedies.onlyIf, hs, commaRemedies, keyRemedies, quoteRemedies,
      noRemedies, apply_ite Remedies.drops]

theorem remedies_quotes : (remedies s).quotes before after = true ↔
    s.quoteKeys = true ∧ PrecedesKey (before CodePoint.isSpacing) ∧
      after CodePoint.isSpacing = some (.scalar ':') := by
  cases hs : s.quoteKeys <;>
    simp [remedies, Remedies.join, Remedies.onlyIf, hs, commaRemedies, keyRemedies, quoteRemedies,
      noRemedies, apply_ite Remedies.quotes]

theorem remedies_requotes : (remedies s).requotes before after = true ↔
    s.convertSingleQuotes = true ∧
      (QuoteTarget.keys.accepts (before CodePoint.isBlank) (after CodePoint.isBlank) = true ∨
        QuoteTarget.values.accepts (before CodePoint.isBlank) (after CodePoint.isBlank) =
          true) := by
  cases hs : s.convertSingleQuotes <;>
    simp [remedies, Remedies.join, Remedies.onlyIf, hs, commaRemedies, keyRemedies, quoteRemedies,
      noRemedies, apply_ite Remedies.requotes]

end Remedies

variable [Alphabet]

namespace IsAtomLexeme

variable {l : Lexeme}

/-- An atom's lexeme has a code point. -/
theorem points_ne_nil (h : IsAtomLexeme l) : points l ≠ [] := by
  rcases h with ⟨c, -, rfl⟩ | ⟨w, hne, -, rfl⟩
  · simp
  · simpa using hne

/-- An atom's lexeme is made of the code points of atoms. -/
theorem isAtomPoint (h : IsAtomLexeme l) : ∀ c ∈ points l, IsAtomPoint c := by
  rcases h with ⟨c, hc, rfl⟩ | ⟨w, -, hkey, rfl⟩
  · intro d hd
    rw [points_cons, points_nil, List.mem_singleton] at hd
    rw [hd]
    exact .inr hc
  · intro d hd
    rw [points_map_mark] at hd
    exact .inl (hkey d hd)

/-- No atom's lexeme is blank. -/
theorem isBlank_eq_false (h : IsAtomLexeme l) {blank : CodePoint → Bool}
    (hblank : IsBlankClass blank) : Lexeme.isBlank blank l = false := by
  rcases h with ⟨c, hc, rfl⟩ | ⟨w, -, hkey, rfl⟩
  · rw [Lexeme.isBlank_point]
    refine hblank.eq_false ?_
    rcases hc with rfl | rfl | rfl <;> decide
  · exact Lexeme.isBlank_word hblank hkey

/-- An atom's lexeme is live at its front. -/
theorem front?_eq (h : IsAtomLexeme l) : Lexeme.front? l = (points l).head? := by
  rcases h with ⟨c, -, rfl⟩ | ⟨w, -, -, rfl⟩
  · rfl
  · rw [Lexeme.front?_word, points_map_mark]

/-- An atom's lexeme is live at its back. -/
theorem back?_eq (h : IsAtomLexeme l) : Lexeme.back? l = (points l).getLast? := by
  rcases h with ⟨c, -, rfl⟩ | ⟨w, -, -, rfl⟩
  · rfl
  · rw [Lexeme.back?_word, points_map_mark]

/-- No colon stands at the front of an atom's lexeme. -/
theorem front?_ne_colon (h : IsAtomLexeme l) : Lexeme.front? l ≠ some (.scalar ':') := by
  rw [h.front?_eq]
  intro hfront
  exact absurd (h.isAtomPoint _ (List.mem_of_head? hfront)) not_isAtomPoint_colon

/-- No colon stands at the back of an atom's lexeme. -/
theorem back?_ne_colon (h : IsAtomLexeme l) : Lexeme.back? l ≠ some (.scalar ':') := by
  rw [h.back?_eq]
  intro hback
  exact absurd (h.isAtomPoint _ (List.mem_of_getLast? hback)) not_isAtomPoint_colon

end IsAtomLexeme

section Atoms

variable {as : List Lexeme} (has : ∀ l ∈ as, IsAtomLexeme l)

include has

/-- Behind an atom stands its last code point. -/
theorem foldl_behind_atoms (hne : as ≠ []) (before : Neighbour) {blank : CodePoint → Bool}
    (hblank : IsBlankClass blank) :
    as.foldl behind before blank = (spelled as).getLast? := by
  obtain ⟨front, l, rfl⟩ := List.eq_nil_or_concat' as |>.resolve_left hne
  have hl := has l (by simp)
  rw [List.foldl_append, List.foldl_cons, List.foldl_nil, behind, hl.isBlank_eq_false hblank,
    if_neg Bool.false_ne_true, hl.back?_eq, spelled_append, spelled_cons, spelled_nil,
    List.append_nil, List.getLast?_append_of_ne_nil _ hl.points_ne_nil]

/-- Inside an atom that stands before no colon nothing is mended. -/
theorem mendFrom_atoms {s : Settings} {ls : List Lexeme}
    (hahead : frontOf? CodePoint.isSpacing ls ≠ some (.scalar ':')) (before : Neighbour) :
    mendFrom (remedies s) before (as ++ ls) =
      as ++ mendFrom (remedies s) (as.foldl behind before) ls := by
  induction as generalizing before with
  | nil => rfl
  | cons l as ih =>
    have has' : ∀ l ∈ as, IsAtomLexeme l := fun l hl => has l (List.mem_cons_of_mem _ hl)
    have hfront : frontOf? CodePoint.isSpacing (as ++ ls) ≠ some (.scalar ':') := by
      cases as with
      | nil => exact hahead
      | cons l' as =>
        have hl' := has' l' List.mem_cons_self
        rw [List.cons_append, frontOf?, hl'.isBlank_eq_false (.inl rfl),
          if_neg Bool.false_ne_true]
        exact hl'.front?_ne_colon
    have happly : (remedies s).apply before (ahead (as ++ ls)) l = [l] := by
      rcases has l List.mem_cons_self with ⟨c, hc, rfl⟩ | ⟨w, hne, hkey, rfl⟩
      · have hcomma : c ≠ .scalar ',' := by rcases hc with rfl | rfl | rfl <;> decide
        have hnot : isKeyPoint c = false := by
          refine isKeyPoint_of_isAsciiMark ?_
          rcases hc with rfl | rfl | rfl <;> decide
        rw [Remedies.apply_point hnot, if_neg fun h => hcomma h.1]
      · rw [Remedies.apply_word hne hkey, if_neg fun h => hfront (remedies_quotes.mp h).2.2]
    rw [List.cons_append, mendFrom, happly, ih has']
    rfl

/-- An atom that stands behind no colon has no bare value. -/
theorem bareFrom_atoms (ls : List Lexeme) {before : Neighbour}
    (hbefore : before CodePoint.isSpacing ≠ some (.scalar ':')) :
    bareFrom before (as ++ ls) = bareFrom (as.foldl behind before) ls := by
  induction as generalizing before with
  | nil => rfl
  | cons l as ih =>
    have hl := has l List.mem_cons_self
    have hbehind : behind before l CodePoint.isSpacing ≠ some (.scalar ':') := by
      rw [behind, hl.isBlank_eq_false (.inl rfl), if_neg Bool.false_ne_true]
      exact hl.back?_ne_colon
    rw [List.cons_append, bareFrom, ih (fun l hl => has l (List.mem_cons_of_mem _ hl)) hbehind]
    simp [isBareWord, hbefore]

end Atoms

omit [Alphabet] in
/-- A blank of JSON is passed over by each rule. -/
theorem IsBlankClass.of_isGap {blank : CodePoint → Bool} (h : IsBlankClass blank) {c : CodePoint}
    (hc : isGap c) : blank c = true := by
  refine h.of_isSpacing ?_
  simp only [isGap, Bool.or_eq_true, decide_eq_true_eq] at hc
  rcases hc with ((rfl | rfl) | rfl) | rfl <;> decide

omit [Alphabet] in
/-- No mark of punctuation is passed over. -/
theorem IsBlankClass.eq_false_of_isPunctuation {blank : CodePoint → Bool} (h : IsBlankClass blank)
    {c : CodePoint} (hc : IsPunctuation c) : blank c = false := by
  refine h.eq_false ?_
  rcases hc with rfl | rfl | rfl | rfl | rfl | rfl <;> decide

/-- An atom has a first lexeme. -/
theorem lexemes_atom_ne_nil {text : Text} (h : (Token.atom text).IsSound) :
    lexemes (scan text) ≠ [] := by
  intro hnil
  have hspelled := spelled_lexemes text
  rw [hnil] at hspelled
  exact h.1 hspelled.symm

/-- In front of what tokens are laid out in stands the front of the first token. -/
theorem Laid.frontOf? {ts : List Token} {ls : List Lexeme} (h : Laid false ts ls)
    (hsound : ∀ tok ∈ ts, tok.IsSound) {blank : CodePoint → Bool} (hblank : IsBlankClass blank) :
    Repair.frontOf? blank ls = frontFrom none ts := by
  induction h using Laid.strict_induction with
  | nil => rfl
  | blank hc h ih =>
    rw [Repair.frontOf?, Lexeme.isBlank_point, if_pos (hblank.of_isGap hc)]
    exact ih hsound
  | @token tok ts ls h ih =>
    have htok := hsound tok List.mem_cons_self
    cases tok with
    | punctuation c =>
      rw [tokenLexemes, List.singleton_append, Repair.frontOf?, Lexeme.isBlank_point,
        hblank.eq_false_of_isPunctuation htok]
      rfl
    | literal q content =>
      rw [tokenLexemes, List.singleton_append, Repair.frontOf?,
        Lexeme.isBlank_construct _ (by simp), if_neg Bool.false_ne_true,
        Lexeme.front?_construct (by simp)]
      rfl
    | key word =>
      rw [tokenLexemes, List.singleton_append, Repair.frontOf?, Lexeme.isBlank_word hblank htok.2,
        if_neg Bool.false_ne_true, Lexeme.front?_word]
      rfl
    | atom text =>
      obtain ⟨l, as, has⟩ := List.exists_cons_of_ne_nil (lexemes_atom_ne_nil htok)
      have hl := isAtomLexeme_of_mem htok l (by rw [has]; exact List.mem_cons_self)
      have htext : points l ++ spelled as = text := by
        rw [← spelled_cons, ← has, spelled_lexemes]
      rw [tokenLexemes, has, List.cons_append, Repair.frontOf?, hl.isBlank_eq_false hblank,
        if_neg Bool.false_ne_true, hl.front?_eq, frontFrom, frontPoint, ← htext,
        List.head?_append_of_ne_nil _ hl.points_ne_nil]

/-- Behind the lexemes of a token stands the end of the token. -/
theorem foldl_behind_tokenLexemes {tok : Token} (h : tok.IsSound) (before : Neighbour)
    {blank : CodePoint → Bool} (hblank : IsBlankClass blank) :
    (tokenLexemes tok).foldl behind before blank = backPoint tok := by
  cases tok with
  | punctuation c =>
    rw [tokenLexemes, List.foldl_cons, List.foldl_nil, behind, Lexeme.isBlank_point,
      hblank.eq_false_of_isPunctuation h]
    rfl
  | literal q content =>
    rw [tokenLexemes, List.foldl_cons, List.foldl_nil, behind,
      Lexeme.isBlank_construct _ (by simp), if_neg Bool.false_ne_true,
      Lexeme.back?_construct (by simp)]
    rfl
  | key word =>
    rw [tokenLexemes, List.foldl_cons, List.foldl_nil, behind, Lexeme.isBlank_word hblank h.2,
      if_neg Bool.false_ne_true, Lexeme.back?_word]
    rfl
  | atom text =>
    rw [tokenLexemes, foldl_behind_atoms (isAtomLexeme_of_mem h) (lexemes_atom_ne_nil h) _ hblank,
      spelled_lexemes]
    rfl

/-- The lexemes of a token are mended to those of what is left of the token. -/
theorem mendFrom_tokenLexemes {s : Settings} {tok : Token} (h : tok.IsSound) {before : Neighbour}
    {x y : Option CodePoint} {ls : List Lexeme}
    (hbefore : ∀ blank, IsBlankClass blank → before blank = x)
    (hahead : ∀ blank, IsBlankClass blank → ahead ls blank = y)
    (hatom : ∀ text, tok = .atom text → y ≠ some (.scalar ':')) :
    mendFrom (remedies s) before (tokenLexemes tok ++ ls) =
      (mendToken s x y tok).flatMap tokenLexemes ++
        mendFrom (remedies s) ((tokenLexemes tok).foldl behind before) ls := by
  have hspacing := hbefore CodePoint.isSpacing (.inl rfl)
  have hblank := hbefore CodePoint.isBlank (.inr rfl)
  have hspacing' := hahead CodePoint.isSpacing (.inl rfl)
  have hblank' := hahead CodePoint.isBlank (.inr rfl)
  cases tok with
  | punctuation c =>
    have hdrops : c = .scalar ',' ∧ (remedies s).drops before (ahead ls) = true ↔
        c = .scalar ',' ∧ s.removeTrailingCommas = true ∧ Closes y := by
      rw [remedies_drops, hspacing']
    rw [tokenLexemes, List.singleton_append, mendFrom,
      Remedies.apply_point (isKeyPoint_of_isPunctuation h), mendToken]
    by_cases hdrop : c = .scalar ',' ∧ s.removeTrailingCommas = true ∧ Closes y
    · rw [if_pos (hdrops.mpr hdrop), if_pos hdrop]
      rfl
    · rw [if_neg (mt hdrops.mp hdrop), if_neg hdrop]
      rfl
  | literal q content =>
    have hrequotes : q = .single ∧ (remedies s).requotes before (ahead ls) = true ↔
        q = .single ∧ s.convertSingleQuotes = true ∧
          (QuoteTarget.keys.accepts x y = true ∨ QuoteTarget.values.accepts x y = true) := by
      rw [remedies_requotes, hblank, hblank']
    rw [tokenLexemes, List.singleton_append, mendFrom, Remedies.apply_literal h, mendToken]
    split
    · next hmend =>
      rw [if_pos (hrequotes.mp hmend)]
      rfl
    · next hmend =>
      rw [if_neg (mt hrequotes.mpr hmend)]
      rfl
  | key word =>
    have hquotes : (remedies s).quotes before (ahead ls) = true ↔
        s.quoteKeys = true ∧ PrecedesKey x ∧ y = some (.scalar ':') := by
      rw [remedies_quotes, hspacing, hspacing']
    rw [tokenLexemes, List.singleton_append, mendFrom, Remedies.apply_word h.1 h.2, mendToken]
    by_cases hmend : s.quoteKeys = true ∧ PrecedesKey x ∧ y = some (.scalar ':')
    · rw [if_pos (hquotes.mpr hmend), if_pos hmend]
      rfl
    · rw [if_neg (mt hquotes.mp hmend), if_neg hmend]
      rfl
  | atom text =>
    have hcolon := hatom text rfl
    rw [← hspacing'] at hcolon
    rw [tokenLexemes, mendFrom_atoms (isAtomLexeme_of_mem h) hcolon, mendToken]
    simp [tokenLexemes]

omit [Alphabet] in
/-- No colon follows an atom. -/
theorem frontFrom_ne_colon {text : Text} {ts : List Token}
    (h : (.atom text :: ts).IsChain Token.Adjoins) : frontFrom none ts ≠ some (.scalar ':') := by
  cases ts with
  | nil => simp [frontFrom]
  | cons tok ts =>
    have hadjoins := (List.isChain_cons_cons.mp h).1
    cases tok with
    | punctuation c => exact fun hcolon => hadjoins (Option.some.inj hcolon)
    | _ => exact hadjoins.elim

/-- What is mended of what tokens are laid out in is what mended tokens are laid out in, and it
stays as it is if the tokens do. -/
theorem Laid.mendFrom {s : Settings} {ts : List Token} {ls : List Lexeme} (h : Laid false ts ls)
    (hsound : ∀ tok ∈ ts, tok.IsSound) (hchain : ts.IsChain Token.Adjoins) {before : Neighbour}
    {x : Option CodePoint} (hbefore : ∀ blank, IsBlankClass blank → before blank = x) :
    Laid false (mendTokens s x none ts) (Repair.mendFrom (remedies s) before ls) ∧
      (mendTokens s x none ts = ts → Repair.mendFrom (remedies s) before ls = ls) := by
  induction h using Laid.strict_induction generalizing before x with
  | nil => exact ⟨.nil, fun _ => rfl⟩
  | @blank c ts ls hc h ih =>
    have hcomma : c ≠ .scalar ',' := by
      rintro rfl
      revert hc
      decide
    have hbehind : ∀ blank, IsBlankClass blank → behind before [live c] blank = x := by
      intro blank hblank
      rw [behind, Lexeme.isBlank_point, if_pos (hblank.of_isGap hc)]
      exact hbefore blank hblank
    have hi := ih hsound hchain hbehind
    rw [Repair.mendFrom, Remedies.apply_point (isKeyPoint_of_isBlank (isBlank_of_isGap hc)),
      if_neg fun hdrop => hcomma hdrop.1]
    exact ⟨.blank hc hi.1, fun hstays => congrArg _ (hi.2 hstays)⟩
  | @token tok ts ls h ih =>
    have htok := hsound tok List.mem_cons_self
    have htail : ∀ tok ∈ ts, tok.IsSound := fun tok htok => hsound tok (List.mem_cons_of_mem _ htok)
    have hi := ih htail hchain.tail fun blank hblank => foldl_behind_tokenLexemes htok before hblank
    have hatom : ∀ text, tok = .atom text → frontFrom none ts ≠ some (.scalar ':') := by
      rintro text rfl
      exact frontFrom_ne_colon hchain
    rw [mendFrom_tokenLexemes htok hbefore (fun blank hblank => h.frontOf? htail hblank) hatom]
    refine ⟨hi.1.tokens_append _, fun hstays => ?_⟩
    obtain ⟨htoken, htokens⟩ := mendTokens_cons_eq_self hstays
    rw [htoken, hi.2 htokens, List.flatMap_cons, List.flatMap_nil, List.append_nil]

/-- True of the tokens that are bare keys. -/
def IsKey : Token → Prop
  | .key _ => True
  | _ => False

/-- An atom behind a colon is no bare value. -/
theorem isBareWord_atom {text : Text} (h : (Token.atom text).IsSound) {l : Lexeme}
    {as : List Lexeme} (hl : lexemes (scan text) = l :: as) (before : Option CodePoint) :
    isBareWord before l = false := by
  have hmem := isAtomLexeme_of_mem h l (by rw [hl]; exact List.mem_cons_self)
  rcases h.2.2 with hword | hname
  · have hkeys : ∀ w ∈ [Text.ofString "true", Text.ofString "false", Text.ofString "null"],
        w ≠ [] ∧ ∀ c ∈ w, isAsciiKey c := by
      decide
    have htext : text ∈ [Text.ofString "true", Text.ofString "false", Text.ofString "null"] := by
      simpa [isLiteralWord, or_assoc] using hword
    obtain ⟨hne, hkey⟩ := hkeys text htext
    have hlexed : Lexed false [text.map live] :=
      .word hne (fun c hc => isKeyPoint_of_isAsciiKey (hkey c hc)) (by simp) (.nil _)
    have hlexemes := hlexed.lexemes_scan
    rw [spelled_cons, spelled_nil, points_map_mark, List.append_nil, hl] at hlexemes
    obtain ⟨rfl, -⟩ := List.cons.inj hlexemes
    simp [isBareWord, hword]
  · have htext : points l ++ spelled as = text := by
      rw [← spelled_cons, ← hl, spelled_lexemes]
    have hfront : Lexeme.front? l = text.head? := by
      rw [hmem.front?_eq, ← htext, List.head?_append_of_ne_nil _ hmem.points_ne_nil]
    have hany : (Lexeme.front? l).any isNameStart = false := by
      rw [hfront]
      cases hhead : text.head? with
      | none => rfl
      | some c => exact hname c hhead
    simp [isBareWord, hany]

/-- No lexeme of a token is a bare value, if the token is no bare key behind a colon. -/
theorem bareFrom_tokenLexemes {tok : Token} (h : tok.IsSound) {before : Neighbour}
    (hbefore : before CodePoint.isSpacing = some (.scalar ':') → ¬IsKey tok) (ls : List Lexeme) :
    bareFrom before (tokenLexemes tok ++ ls) =
      bareFrom ((tokenLexemes tok).foldl behind before) ls := by
  cases tok with
  | punctuation c =>
    rw [tokenLexemes, List.singleton_append, bareFrom,
      isBareWord_point (isKeyPoint_of_isPunctuation h)]
    rfl
  | literal q content =>
    rw [tokenLexemes, List.singleton_append, bareFrom, isBareWord_construct (by simp)]
    rfl
  | key word =>
    have hcolon : before CodePoint.isSpacing ≠ some (.scalar ':') :=
      fun hcolon => hbefore hcolon trivial
    rw [tokenLexemes, List.singleton_append, bareFrom]
    simp [isBareWord, hcolon]
  | atom text =>
    obtain ⟨l, as, has⟩ := List.exists_cons_of_ne_nil (lexemes_atom_ne_nil h)
    have hmem := isAtomLexeme_of_mem h
    rw [has] at hmem
    have hl := hmem l List.mem_cons_self
    have hbehind : behind before l CodePoint.isSpacing ≠ some (.scalar ':') := by
      rw [behind, hl.isBlank_eq_false (.inl rfl), if_neg Bool.false_ne_true]
      exact hl.back?_ne_colon
    rw [tokenLexemes, has, List.cons_append, bareFrom, isBareWord_atom h has,
      if_neg Bool.false_ne_true, List.nil_append,
      bareFrom_atoms (fun l hl => hmem l (List.mem_cons_of_mem _ hl)) ls hbehind]
    rfl

/-- Only a colon ends with a colon. -/
theorem eq_colon_of_backPoint {tok : Token} (h : tok.IsSound)
    (hback : backPoint tok = some (.scalar ':')) : tok = .punctuation (.scalar ':') := by
  cases tok with
  | punctuation c =>
    cases hback
    rfl
  | literal => cases hback
  | key word =>
    have hkey := h.2 _ (List.mem_of_getLast? hback)
    exact absurd rfl (ne_of_isKeyPoint hkey (by decide))
  | atom text => exact absurd (h.2.1 _ (List.mem_of_getLast? hback)) not_isAtomPoint_colon

/-- No token of a document is a bare value, if no bare key stands behind a colon. -/
theorem Laid.bareFrom {ts : List Token} {ls : List Lexeme} (h : Laid false ts ls)
    (hsound : ∀ tok ∈ ts, tok.IsSound) (hchain : ts.IsChain Token.Adjoins) {before : Neighbour}
    (hbefore : before CodePoint.isSpacing = some (.scalar ':') → ∀ tok ∈ ts.head?, ¬IsKey tok) :
    Repair.bareFrom before ls = [] := by
  induction h using Laid.strict_induction generalizing before with
  | nil => rfl
  | @blank c ts ls hc h ih =>
    rw [Repair.bareFrom, isBareWord_point (isKeyPoint_of_isBlank (isBlank_of_isGap hc))]
    refine ih hsound hchain ?_
    rw [behind, Lexeme.isBlank_point, if_pos (IsBlankClass.of_isGap (.inl rfl) hc)]
    exact hbefore
  | @token tok ts ls h ih =>
    have htok := hsound tok List.mem_cons_self
    have hfirst := (List.isChain_cons.mp hchain).1
    rw [bareFrom_tokenLexemes htok fun hcolon => hbefore hcolon tok rfl]
    refine ih (fun tok htok => hsound tok (List.mem_cons_of_mem _ htok)) hchain.tail ?_
    rw [foldl_behind_tokenLexemes htok before (.inl rfl)]
    intro hback tok' htok' hkey
    have hadjoins := hfirst tok' htok'
    rw [eq_colon_of_backPoint htok hback] at hadjoins
    cases tok' with
    | key => exact hadjoins rfl
    | _ => exact hkey

end SourcePress.Repair
