import SourcePress.Proofs.Repair.Literals
import SourcePress.Proofs.Repair.Readied

/-!
# What a repair does to literals

A script goes through the literals and the significant code points of a text and says of each what
a repair made of it. A literal stays or, if it is a closed one between single quotes, is requoted.
Of the live code only commas and whole runs of key characters go, and such a run comes back as a
literal. So no repair cuts a literal or makes one of anything else.
-/

namespace SourcePress.Repair

open Lexis

/-- What a repair does with a literal, a code point or a run of code points. -/
inductive Change where
  /-- A literal stays. -/
  | literal (q : Quote) (text : Text)
  /-- A content between single quotes is requoted. -/
  | requoted (content : Text)
  /-- A live code point stays. -/
  | point (c : CodePoint)
  /-- A comma goes. -/
  | comma
  /-- A run of key characters becomes a literal. -/
  | key (word : Text)

namespace Change

/-- The literal that a change is about. -/
def stringBefore? : Change → Option (Quote × Text)
  | literal q text => some (q, text)
  | requoted content => some (.single, Quote.single.literal content)
  | _ => none

/-- The literal that a change leaves. -/
def stringAfter? : Change → Option (Quote × Text)
  | literal q text => some (q, text)
  | requoted content => some (.double, requote (Quote.single.literal content))
  | key word => some (.double, doubleQuoted word)
  | _ => none

/-- The live code points that a change is about. -/
def liveBefore : Change → Text
  | point c => [c]
  | comma => [.scalar ',']
  | key word => word
  | _ => []

/-- The live code points that a change leaves. -/
def liveAfter : Change → Text
  | point c => [c]
  | _ => []

/-- True of the changes that a repair of a text may make: only closed literals are requoted and
only longest runs become keys. -/
def IsLawful [Alphabet] (t : Text) : Change → Prop
  | requoted content => Quote.single.Encloses content
  | key word => IsLiveRun t word
  | _ => True

end Change

variable [Alphabet]

/-- A script for lexemes and what is left of them. -/
structure Explains (script : List Change) (ls ls' : List Lexeme) : Prop where
  /-- The literals that were there. -/
  stringsBefore : ls.filterMap literal? = script.filterMap Change.stringBefore?
  /-- The literals that are left. -/
  stringsAfter : ls'.filterMap literal? = script.filterMap Change.stringAfter?
  /-- The significant code points that were there. -/
  liveBefore : significantIn ls = script.flatMap Change.liveBefore
  /-- The significant code points that are left. -/
  liveAfter : significantIn ls' = script.flatMap Change.liveAfter
  /-- Only closed literals are requoted. -/
  closed : ∀ content, Change.requoted content ∈ script → Quote.single.Encloses content
  /-- Only words become keys. -/
  words : ∀ w, Change.key w ∈ script → w.map live ∈ ls ∧ w ≠ [] ∧ ∀ c ∈ w, isKeyPoint c

/-- Scripts are put together like the lexemes they are for. -/
theorem Explains.append {s s' : List Change} {l l' m m' : List Lexeme} (h : Explains s l m)
    (h' : Explains s' l' m') : Explains (s ++ s') (l ++ l') (m ++ m') where
  stringsBefore := by
    rw [List.filterMap_append, List.filterMap_append, h.stringsBefore, h'.stringsBefore]
  stringsAfter := by
    rw [List.filterMap_append, List.filterMap_append, h.stringsAfter, h'.stringsAfter]
  liveBefore := by
    rw [significantIn_append, List.flatMap_append, h.liveBefore, h'.liveBefore]
  liveAfter := by
    rw [significantIn_append, List.flatMap_append, h.liveAfter, h'.liveAfter]
  closed content hmem := (List.mem_append.mp hmem).elim (h.closed content) (h'.closed content)
  words w hmem := by
    rcases List.mem_append.mp hmem with hmem | hmem
    · obtain ⟨hl, hword⟩ := h.words w hmem
      exact ⟨List.mem_append_left _ hl, hword⟩
    · obtain ⟨hl, hword⟩ := h'.words w hmem
      exact ⟨List.mem_append_right _ hl, hword⟩

omit [Alphabet] in
/-- The significant code points of a live run are those that are not blank. -/
theorem significantIn_word (w : Text) :
    significantIn [w.map live] = w.filter fun c => !c.isBlank := by
  have hlive : (w.map live).filterMap Mark.live? = w := by
    induction w with
    | nil => rfl
    | cons c w ih =>
      rw [List.map_cons, List.filterMap_cons, ih]
      rfl
  rw [significantIn, List.flatten_singleton, hlive]

omit [Alphabet] in
/-- No code point of a construct is significant. -/
theorem significantIn_construct {r : Region} (hr : r ≠ .code) (t : Text) :
    significantIn [r.construct t] = [] := by
  have hnone : (r.construct t).filterMap Mark.live? = [] := by
    refine List.filterMap_eq_nil_iff.mpr fun m hm => Lexeme.live?_eq_none ?_
    cases t with
    | nil => cases hm
    | cons c t =>
      rcases List.mem_cons.mp hm with rfl | hm
      · exact hr
      · obtain ⟨_, _, rfl⟩ := List.mem_map.mp hm
        exact hr
  rw [significantIn, List.flatten_singleton, hnone]
  rfl

/-- A blank needs no script. -/
theorem explains_blank {c : CodePoint} (hc : c.isBlank) : Explains [] [[live c]] [[live c]] where
  stringsBefore := rfl
  stringsAfter := rfl
  liveBefore := by simp [significantIn, Mark.live?, Mark.isLive, Region.isLive, hc]
  liveAfter := by simp [significantIn, Mark.live?, Mark.isLive, Region.isLive, hc]
  closed := by simp
  words := by simp

/-- Live code points that are not blank stay. -/
theorem explains_live {w : Text} (hw : ∀ c ∈ w, c.isBlank = false) :
    Explains (w.map .point) [w.map live] [w.map live] where
  stringsBefore := by
    have hnone : (w.map Change.point).filterMap Change.stringBefore? = [] := by
      simp [Function.comp_def, Change.stringBefore?]
    rw [hnone, List.filterMap_cons, literal?_word, List.filterMap_nil]
  stringsAfter := by
    have hnone : (w.map Change.point).filterMap Change.stringAfter? = [] := by
      simp [Function.comp_def, Change.stringAfter?]
    rw [hnone, List.filterMap_cons, literal?_word, List.filterMap_nil]
  liveBefore := by
    rw [significantIn_word, List.filter_eq_self.mpr fun c hc => by simp [hw c hc]]
    simp [List.flatMap_map, Change.liveBefore]
  liveAfter := by
    rw [significantIn_word, List.filter_eq_self.mpr fun c hc => by simp [hw c hc]]
    simp [List.flatMap_map, Change.liveAfter]
  closed := by simp
  words := by simp

/-- A comma goes. -/
theorem explains_comma : Explains [.comma] [[live (.scalar ',')]] [] where
  stringsBefore := rfl
  stringsAfter := rfl
  liveBefore := rfl
  liveAfter := rfl
  closed := by simp
  words := by simp

/-- A word becomes a literal. -/
theorem explains_key {w : Text} (hne : w ≠ []) (hkey : ∀ c ∈ w, isKeyPoint c) :
    Explains [.key w] [w.map live] [doubleLiteral w] where
  stringsBefore := by
    rw [List.filterMap_cons, literal?_word]
    rfl
  stringsAfter := by
    rw [doubleLiteral, Quote.literal, List.filterMap_cons, literal?_construct]
    rfl
  liveBefore := by
    have hblank : ∀ c ∈ w, (!c.isBlank) = true := by
      intro c hc
      have hclass : IsBlankClass CodePoint.isBlank := .inr rfl
      rw [hclass.eq_false_of_isKeyPoint (hkey c hc)]
      rfl
    rw [significantIn_word, List.filter_eq_self.mpr hblank]
    simp [Change.liveBefore]
  liveAfter := by
    rw [doubleLiteral, significantIn_construct (by simp)]
    rfl
  closed := by simp
  words := by
    intro w' hw'
    cases List.mem_singleton.mp hw'
    exact ⟨List.mem_singleton.mpr rfl, hne, hkey⟩

/-- A closed literal between single quotes is requoted. -/
theorem explains_requoted {content : Text} (h : Quote.single.Encloses content) :
    Explains [.requoted content] [(Region.string .single).construct (Quote.single.literal content)]
      [doubleLiteral (requoteContent content)] where
  stringsBefore := by
    rw [Quote.literal, List.filterMap_cons, literal?_construct]
    rfl
  stringsAfter := by
    have hcontent : ((Quote.single.literal content).drop 1).dropLast = content := by
      rw [Quote.literal, List.drop_one, List.tail_cons, List.dropLast_concat]
    have hrequote : Change.stringAfter? (.requoted content) =
        some (.double, Quote.double.literal (requoteContent content)) := by
      rw [Change.stringAfter?, requote, hcontent]
      rfl
    rw [List.filterMap_cons, List.filterMap_cons, hrequote, doubleLiteral, Quote.literal,
      literal?_construct]
    rfl
  liveBefore := by
    rw [significantIn_construct (by simp)]
    rfl
  liveAfter := by
    rw [doubleLiteral, significantIn_construct (by simp)]
    rfl
  closed := by
    intro content' hmem
    cases List.mem_singleton.mp hmem
    exact h
  words := by simp

/-- A literal stays. -/
theorem explains_literal (q : Quote) (c : CodePoint) (t : Text) :
    Explains [.literal q (c :: t)] [(Region.string q).construct (c :: t)]
      [(Region.string q).construct (c :: t)] where
  stringsBefore := by
    rw [List.filterMap_cons, literal?_construct]
    rfl
  stringsAfter := by
    rw [List.filterMap_cons, literal?_construct]
    rfl
  liveBefore := by
    rw [significantIn_construct (by simp)]
    rfl
  liveAfter := by
    rw [significantIn_construct (by simp)]
    rfl
  closed := by simp
  words := by simp

/-- A comment needs no script. -/
theorem explains_comment {r : Region} (hr : r.isComment = true) (c : CodePoint) (t : Text) :
    Explains [] [r.construct (c :: t)] [r.construct (c :: t)] := by
  have hcode : r ≠ .code := by
    rintro rfl
    cases hr
  have hliteral : [r.construct (c :: t)].filterMap literal? = [] := by
    rw [List.filterMap_cons, literal?_construct]
    cases r <;> first | rfl | cases hr
  exact ⟨hliteral, hliteral, significantIn_construct hcode _, significantIn_construct hcode _,
    by simp, by simp⟩

/-- Each mending of lexemes has a script. -/
theorem exists_script (r : Remedies) (before : Neighbour) {e : Bool} {ls : List Lexeme}
    (h : Lexed e ls) : ∃ script, Explains script ls (mendFrom r before ls) := by
  induction h generalizing before with
  | nil => exact ⟨[], rfl, rfl, rfl, rfl, by simp, by simp⟩
  | @point e c rest hkey hopen hrest ih =>
    obtain ⟨script, hscript⟩ := ih (behind before [live c])
    rw [mendFrom, Remedies.apply_point hkey]
    split
    · next hdrop =>
      rw [hdrop.1] at hscript ⊢
      exact ⟨_, explains_comma.append hscript⟩
    · cases hblank : c.isBlank with
      | true => exact ⟨_, (explains_blank hblank).append hscript⟩
      | false => exact ⟨_, (explains_live (w := [c]) (by simp [hblank])).append hscript⟩
  | @word e w rest hne hkey hnext hrest ih =>
    obtain ⟨script, hscript⟩ := ih (behind before (w.map live))
    rw [mendFrom, Remedies.apply_word hne hkey]
    split
    · exact ⟨_, (explains_key hne hkey).append hscript⟩
    · have hclass : IsBlankClass CodePoint.isBlank := .inr rfl
      have hlive := explains_live fun c hc => hclass.eq_false_of_isKeyPoint (hkey c hc)
      exact ⟨_, hlive.append hscript⟩
  | @literal q content rest hq hrest ih =>
    obtain ⟨script, hscript⟩ :=
      ih (behind before ((Region.string q).construct (q.literal content)))
    rw [mendFrom, Remedies.apply_literal hq]
    split
    · next hrequote =>
      obtain ⟨rfl, -⟩ := hrequote
      exact ⟨_, (explains_requoted hq).append hscript⟩
    · exact ⟨_, (explains_literal q _ _).append hscript⟩
  | unclosedLiteral hq =>
    rw [mendFrom, Remedies.apply_inert (by simp) (.inr (isClosed_unclosed hq))]
    exact ⟨_, explains_literal _ _ _⟩
  | line hbody hnext hrest ih =>
    obtain ⟨script, hscript⟩ := ih _
    rw [mendFrom, Remedies.apply_inert (by simp) (.inl rfl)]
    exact ⟨_, (explains_comment rfl _ _).append hscript⟩
  | block hb hrest ih =>
    obtain ⟨script, hscript⟩ := ih _
    rw [mendFrom, Remedies.apply_inert (by simp) (.inl rfl)]
    exact ⟨_, (explains_comment rfl _ _).append hscript⟩
  | unclosedBlock hb =>
    rw [mendFrom, Remedies.apply_inert (by simp) (.inl rfl)]
    exact ⟨_, explains_comment rfl _ _⟩

/-- Comments hold neither literals nor significant code points. -/
theorem literals_uncomment {ls : List Lexeme} (hs : ∀ l ∈ ls, Shape l) :
    (uncomment ls).filterMap literal? = ls.filterMap literal? ∧
      significantIn (uncomment ls) = significantIn ls := by
  induction ls with
  | nil => exact ⟨rfl, rfl⟩
  | cons l ls ih =>
    have hi := ih fun l hl => hs l (List.mem_cons_of_mem _ hl)
    have hcons : l :: ls = [l] ++ ls := rfl
    rw [uncomment_cons, hcons, List.filterMap_append, List.filterMap_append, significantIn_append,
      significantIn_append, hi.1, hi.2]
    cases hs l List.mem_cons_self with
    | point => exact ⟨rfl, rfl⟩
    | word => rw [uncommented_word]; exact ⟨rfl, rfl⟩
    | @construct r c t hr =>
      cases r with
      | code => exact absurd rfl hr
      | string => rw [uncommented_string]; exact ⟨rfl, rfl⟩
      | lineComment =>
        have hcomment := explains_comment (r := .lineComment) rfl c t
        rw [uncommented_line, hcomment.stringsBefore, hcomment.liveBefore]
        exact ⟨rfl, rfl⟩
      | blockComment =>
        have hcomment := explains_comment (r := .blockComment) rfl c t
        rw [uncommented_block, hcomment.stringsBefore, hcomment.liveBefore]
        exact ⟨rfl, rfl⟩

/-- Blanks are neither literals nor significant. -/
theorem literals_blankLexemes {t : Text} (ht : ∀ c ∈ t, c.isBlank) :
    (blankLexemes t).filterMap literal? = [] ∧ significantIn (blankLexemes t) = [] := by
  induction t with
  | nil => exact ⟨rfl, rfl⟩
  | cons c t ih =>
    have hi := ih fun d hd => ht d (List.mem_cons_of_mem c hd)
    have hblank := explains_blank (ht c List.mem_cons_self)
    have hcons : blankLexemes (c :: t) = [[live c]] ++ blankLexemes t := rfl
    rw [hcons, List.filterMap_append, significantIn_append, hi.1, hi.2, hblank.stringsBefore,
      hblank.liveBefore]
    exact ⟨rfl, rfl⟩

/-- The text that a repair mends has the literals and significant code points of the trimmed
one. -/
theorem literals_readied (s : Settings) (t : Text) :
    (lexemes (scan (readied s t))).filterMap literal? = stringSegments t.trim ∧
      significantIn (lexemes (scan (readied s t))) = significant t.trim := by
  rw [readied, stringSegments_eq, significant_eq]
  split
  · obtain ⟨front, back, hfront, hback, hsplit⟩ := exists_blanks_stripComments t
    have huncomment := literals_uncomment (lexed_lexemes t.trim).shape
    have hfront' := literals_blankLexemes hfront
    have hback' := literals_blankLexemes hback
    rw [← huncomment.1, ← huncomment.2, hsplit, List.filterMap_append, List.filterMap_append,
      significantIn_append, significantIn_append, hfront'.1, hfront'.2, hback'.1, hback'.2,
      List.nil_append, List.nil_append, List.append_nil, List.append_nil]
    exact ⟨rfl, rfl⟩
  · exact ⟨rfl, rfl⟩

/-- A word among the lexemes that a repair mends is one of the trimmed text. -/
theorem mem_lexemes_readied {s : Settings} {t w : Text} (hne : w ≠ [])
    (hkey : ∀ c ∈ w, isKeyPoint c) (h : w.map live ∈ lexemes (scan (readied s t))) :
    w.map live ∈ lexemes (scan t.trim) := by
  rw [readied] at h
  split at h
  · obtain ⟨front, back, hfront, hback, hsplit⟩ := exists_blanks_stripComments t
    have hmem : w.map live ∈ uncomment (lexemes (scan t.trim)) := by
      rw [hsplit]
      exact List.mem_append_left _ (List.mem_append_right _ h)
    obtain ⟨l, hl, hw⟩ := List.mem_flatMap.mp hmem
    rw [uncommented] at hw
    split at hw
    · cases hw
    · obtain ⟨c, w, rfl⟩ := List.exists_cons_of_ne_nil hne
      have hspace : c = .scalar ' ' := by
        simpa using congrArg (fun l => l.head?.map Mark.point) (List.mem_singleton.mp hw)
      have hc := hkey c List.mem_cons_self
      rw [hspace] at hc
      exact absurd rfl (ne_of_isKeyPoint_eq_false hc (isKeyPoint_of_isBlank (by decide)))
    · rw [List.mem_singleton.mp hw]
      exact hl
  · exact h

/-- No key character follows a word. -/
theorem Lexed.head?_of_word {e : Bool} {w : Text} {rest : List Lexeme}
    (h : Lexed e (w.map live :: rest)) (hne : w ≠ []) (hkey : ∀ c ∈ w, isKeyPoint c) :
    ∀ m ∈ rest.flatten.head?, isKeyMark m = false := by
  obtain ⟨c, w, rfl⟩ := List.exists_cons_of_ne_nil hne
  have hc := hkey c List.mem_cons_self
  rcases h.live_cases with ⟨-, hnot, -, -⟩ | ⟨-, hnext, -⟩
  · rw [hnot] at hc
    cases hc
  · exact hnext

/-- No key character stands before a word. -/
theorem Lexed.getLast?_of_word {e : Bool} {l : Lexeme} {w : Text} {rest : List Lexeme}
    (h : Lexed e (l :: w.map live :: rest)) (hne : w ≠ []) (hkey : ∀ c ∈ w, isKeyPoint c) :
    ∀ m ∈ l.getLast?, isKeyMark m = false := by
  obtain ⟨c, w, rfl⟩ := List.exists_cons_of_ne_nil hne
  cases h with
  | point hnot =>
    rintro m ⟨⟩
    exact hnot
  | word _ _ hnext =>
    have hc : isKeyMark (live c) = false := hnext (live c) rfl
    have hc' : isKeyMark (live c) = true := hkey c List.mem_cons_self
    rw [hc'] at hc
    cases hc
  | literal => exact getLast?_construct_not_key (by simp) _
  | line => exact getLast?_construct_not_key (by simp) _
  | block => exact getLast?_construct_not_key (by simp) _

/-- A word among the lexemes of a text is a longest run of live key characters. -/
theorem isLiveRun_of_mem {t w : Text} (hne : w ≠ []) (hkey : ∀ c ∈ w, isKeyPoint c)
    (h : w.map live ∈ lexemes (scan t)) : IsLiveRun t w := by
  obtain ⟨front, rest, hsplit⟩ := List.append_of_mem h
  have hls := lexed_lexemes t
  rw [hsplit] at hls
  refine ⟨front.flatten, rest.flatten, ?_, hne, hkey, ?_, ?_⟩
  · rw [← flatten_lexemes (scan t), hsplit, List.flatten_append, List.flatten_cons, List.append_assoc]
  · intro m hm
    rcases List.eq_nil_or_concat front with rfl | ⟨front, l, rfl⟩
    · cases hm
    · rw [List.concat_eq_append, List.append_assoc] at hls
      obtain ⟨e, hl, -⟩ := hls.suffix (by simp)
      have hlne : l ≠ [] := ne_nil_of_mem_runsOf (hsplit ▸ by simp : l ∈ lexemes (scan t))
      have hlast : m ∈ l.getLast? := by
        obtain ⟨m', hm'⟩ := Option.ne_none_iff_exists'.mp (mt List.getLast?_eq_none_iff.mp hlne)
        rw [List.concat_eq_append, List.flatten_append, List.flatten_singleton,
          List.getLast?_append, hm', Option.some_or] at hm
        rw [hm', hm]
        rfl
      exact Lexed.getLast?_of_word hl hne hkey m hlast
  · obtain ⟨e, hw, -⟩ := hls.suffix (by simp)
    exact hw.head?_of_word hne hkey

/-- A longest run of a trimmed text is one of the whole text. -/
theorem IsLiveRun.of_trim {t w : Text} (h : IsLiveRun t.trim w) : IsLiveRun t w := by
  obtain ⟨front, back, hsplit, hfront, hback⟩ := Text.exists_trim t
  obtain ⟨marks, marks', hscan, hne, hkey, hlast, hhead⟩ := h
  have hwhole := (scan_between (t := t.trim) hfront hback).1
  rw [← hsplit, hscan] at hwhole
  refine ⟨front.map live ++ marks, marks' ++ scanFrom (finalMode t.trim) back, ?_, hne, hkey,
    ?_, ?_⟩
  · rw [hwhole]
    simp only [List.append_assoc]
  · intro m hm
    rw [List.getLast?_append] at hm
    cases hmarks : marks.getLast? with
    | some m' =>
      rw [hmarks] at hm
      exact hlast m (hmarks.trans hm)
    | none =>
      rw [hmarks, Option.none_or] at hm
      obtain ⟨c, hc, rfl⟩ := List.mem_map.mp (List.mem_of_getLast? hm)
      exact isKeyPoint_of_isBlank (hfront c hc)
  · intro m hm
    rw [List.head?_append] at hm
    cases hmarks : marks'.head? with
    | some m' =>
      rw [hmarks] at hm
      exact hhead m (hmarks.trans hm)
    | none =>
      rw [hmarks, Option.none_or] at hm
      have hpoint : m.point ∈ back := by
        rw [← points_scanFrom (finalMode t.trim) back]
        exact List.mem_map_of_mem (List.mem_of_head? hm)
      rw [isKeyMark, isKeyPoint_of_isBlank (hback _ hpoint), Bool.and_false]

/-- A repair refuses a text for its bare values, and for nothing else, or leaves a text that a
lawful script tells from the trimmed one: literals stay whole and in order, closed ones between
single quotes may be requoted, and every other literal that is left was a longest run of live key
characters. Of the live code that is not blank only commas and these runs go. -/
theorem repair_keeps_literals (s : Settings) (t : Text) :
    (∃ words, repair s t = .error (.bareValues words)) ∨
      ∃ (r : Text) (script : List Change), repair s t = .ok r ∧
        stringSegments t.trim = script.filterMap Change.stringBefore? ∧
        stringSegments r = script.filterMap Change.stringAfter? ∧
        significant t.trim = script.flatMap Change.liveBefore ∧
        significant r = script.flatMap Change.liveAfter ∧
        ∀ change ∈ script, change.IsLawful t := by
  have hls := lexed_lexemes (readied s t)
  obtain ⟨script, hscript⟩ := exists_script (remedies s) noNeighbour hls
  have hreadied := literals_readied s t
  have hmended := (lexed_mended s t).lexemes_scan
  rw [repair_eq]
  split
  · refine .inr ⟨spelled (mended s t), script, rfl, ?_, ?_, ?_, ?_, ?_⟩
    · rw [← hreadied.1, hscript.stringsBefore]
    · rw [stringSegments_eq, hmended]
      exact hscript.stringsAfter
    · rw [← hreadied.2, hscript.liveBefore]
    · rw [significant_eq, hmended]
      exact hscript.liveAfter
    · intro change hchange
      cases change with
      | requoted content => exact hscript.closed content hchange
      | key word =>
        obtain ⟨hmem, hne, hkey⟩ := hscript.words word hchange
        exact (isLiveRun_of_mem hne hkey (mem_lexemes_readied hne hkey hmem)).of_trim
      | _ => trivial
  · exact .inl ⟨_, rfl⟩

end SourcePress.Repair
