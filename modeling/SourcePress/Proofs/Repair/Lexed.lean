import Mathlib.Data.List.TakeWhile
import SourcePress.Proofs.Lexis.Construct
import SourcePress.Proofs.Lexis.Joining
import SourcePress.Proofs.Repair.KeyPoint

/-!
# The lexemes of a text, told without the scan

A sequence of lexemes is lexed if it could have come out of a scan: words do not touch, what stands
alone opens nothing, every construct is whole, and only the last one may be unclosed. Each text is
the text of exactly one lexed sequence, and that one is its lexemes. So a rewriting of lexemes that
keeps them lexed is undone by no scan of the text it leaves.
-/

namespace SourcePress.Repair

open Lexis

/-- The text of lexemes. -/
def spelled (ls : List Lexeme) : Text := points ls.flatten

@[simp] theorem spelled_nil : spelled [] = [] := rfl

@[simp] theorem spelled_cons (l : Lexeme) (ls : List Lexeme) :
    spelled (l :: ls) = points l ++ spelled ls := by
  simp [spelled]

@[simp] theorem spelled_append (ls ms : List Lexeme) :
    spelled (ls ++ ms) = spelled ls ++ spelled ms := by
  simp [spelled]

/-- A code point of live code as a mark. -/
abbrev live : CodePoint → Mark := Region.code.mark

/-- The text of a live code point and of the lexemes behind it. -/
theorem spelled_point (c : CodePoint) (ls : List Lexeme) :
    spelled ([live c] :: ls) = c :: spelled ls := rfl

variable [Alphabet]

/-- The sequences of lexemes that a text read in live code is cut into. The flag says that the
first code point is escaped. -/
inductive Lexed : Bool → List Lexeme → Prop
  /-- Nothing is read from nothing. -/
  | nil (e : Bool) : Lexed e []
  /-- A live code point that is no key character stands alone. -/
  | point {e : Bool} {c : CodePoint} {rest : List Lexeme} (hkey : isKeyPoint c = false)
      (hopen : e = true ∨ Mode.opening? c (spelled rest).head? = none)
      (hrest : Lexed (!e && c = '\\') rest) : Lexed e ([live c] :: rest)
  /-- A word goes on as far as key characters do. -/
  | word {e : Bool} {w : Text} {rest : List Lexeme} (hne : w ≠ [])
      (hkey : ∀ c ∈ w, isKeyPoint c) (hnext : ∀ m ∈ rest.flatten.head?, isKeyMark m = false)
      (hrest : Lexed false rest) : Lexed e (w.map live :: rest)
  /-- A string literal is whole. -/
  | literal {q : Quote} {content : Text} {rest : List Lexeme} (h : q.Encloses content)
      (hrest : Lexed false rest) :
      Lexed false ((Region.string q).construct (q.literal content) :: rest)
  /-- A string literal that nothing closes ends the text. -/
  | unclosedLiteral {q : Quote} {content : Text} {e : Bool}
      (h : q.escapeAfter? false content = some e) :
      Lexed false [(Region.string q).construct (q.point :: content)]
  /-- A line comment goes on to the end of its line. -/
  | line {body : Text} {rest : List Lexeme} (hbody : ∀ c ∈ body, c.isLineEnd = false)
      (hnext : ∀ c ∈ (spelled rest).head?, c.isLineEnd) (hrest : Lexed false rest) :
      Lexed false (Region.lineComment.construct ('/' :: '/' :: body) :: rest)
  /-- A block comment is whole. -/
  | block {body : Text} {rest : List Lexeme} (h : StaysInBlock (body ++ [.scalar '*']))
      (hrest : Lexed false rest) :
      Lexed false (Region.blockComment.construct (blockText body) :: rest)
  /-- A block comment that nothing closes ends the text. -/
  | unclosedBlock {body : Text} (h : StaysInBlock body) :
      Lexed false [Region.blockComment.construct ('/' :: '*' :: body)]

/-- A key character neither opens nor escapes anything. -/
theorem opening?_of_isKeyPoint {c : CodePoint} (h : isKeyPoint c) (next : Option CodePoint) :
    Mode.opening? c next = none := by
  refine opening?_of_plain ?_ (ne_of_isKeyPoint h (by decide)) next
  cases hq : Quote.ofPoint? c with
  | none => rfl
  | some q =>
    have hc := eq_point_of_ofPoint? hq
    have hk : isAsciiMark q.point := by cases q <;> decide
    exact absurd hc (ne_of_isKeyPoint h hk)

/-- A word is read as live code, behind a backslash too, and leads back to it. -/
theorem scanTo_word {e : Bool} {w : Text} (hne : w ≠ []) (hkey : ∀ c ∈ w, isKeyPoint c)
    (next : Option CodePoint) :
    scanTo (.code e) w next = w.map live ∧ modeTo (.code e) w next = .code false := by
  have hlive := scanTo_live (e := e) (fun c hc => opening?_of_isKeyPoint (hkey c hc))
    (fun c hc => ne_of_isKeyPoint (hkey c hc) (by decide)) next
  rwa [List.isEmpty_eq_false_iff.mpr hne, Bool.and_false] at hlive

/-- Behind a word a text ends as the rest does. -/
theorem modeAfter_word {e : Bool} {w : Text} (hne : w ≠ []) (hkey : ∀ c ∈ w, isKeyPoint c)
    (rest : Text) : modeAfter (.code e) (w ++ rest) = modeAfter (.code false) rest := by
  rw [modeAfter_append, (scanTo_word hne hkey _).2]

/-- The scan of the text of lexed lexemes gives their marks. -/
theorem Lexed.scanFrom_spelled {e : Bool} {ls : List Lexeme} (h : Lexed e ls) :
    scanFrom (.code e) (spelled ls) = ls.flatten := by
  induction h with
  | nil e => rfl
  | point _ hopen _ ih =>
    rw [spelled_point, scanFrom_point hopen, ih, List.flatten_cons, List.singleton_append]
  | word hne hkey _ _ ih =>
    rw [spelled_cons, points_map_mark, scanFrom_append, (scanTo_word hne hkey _).1,
      (scanTo_word hne hkey _).2, ih, List.flatten_cons]
  | literal hq _ ih =>
    rw [spelled_cons, Region.points_construct, scanFrom_literal hq, ih, List.flatten_cons]
  | unclosedLiteral hq =>
    rw [spelled_cons, spelled_nil, Region.points_construct, List.append_nil,
      scanFrom_unclosed hq, List.flatten_singleton]
  | line hbody hnext _ ih =>
    rw [spelled_cons, Region.points_construct, scanFrom_line hbody hnext, ih, List.flatten_cons]
  | block hb _ ih =>
    rw [spelled_cons, Region.points_construct, scanFrom_block hb, ih, List.flatten_cons]
  | unclosedBlock hb =>
    rw [spelled_cons, spelled_nil, Region.points_construct, List.append_nil,
      scanFrom_unclosedBlock hb, List.flatten_singleton]

/-- A whole construct is one run of marks. -/
theorem isChain_construct {r : Region} (hr : r ≠ .code) (t : Text) :
    (r.construct t).IsChain fun a b => sameLexeme a b := by
  refine Region.isChain_construct (fun a b ha hb hopens => ?_) t
  cases r <;> simp_all [sameLexeme, Mark.isLive, Region.isLive, Region.alike]

/-- Key characters are one run of marks. -/
theorem isChain_word {w : Text} (hkey : ∀ c ∈ w, isKeyPoint c) :
    (w.map live).IsChain fun a b => sameLexeme a b := by
  induction w with
  | nil => exact List.isChain_nil
  | cons c w ih =>
    have hi := ih fun d hd => hkey d (List.mem_cons_of_mem c hd)
    cases w with
    | nil => exact List.isChain_singleton _
    | cons d w =>
      refine List.isChain_cons_cons.mpr ⟨?_, hi⟩
      simp [sameLexeme, Mark.isLive, Region.isLive, isKeyMark, hkey c, hkey d]

/-- What begins a lexed sequence: a live mark or the first mark of a construct. -/
theorem Lexed.head_cases {e : Bool} {ls : List Lexeme} (h : Lexed e ls) :
    ∀ m ∈ ls.flatten.head?, m.region = .code ∨ m.opens = true := by
  cases h with
  | nil => simp
  | point => simp
  | @word _ w _ hne =>
    obtain ⟨c, w', rfl⟩ := List.exists_cons_of_ne_nil hne
    simp
  | literal => simp [Region.construct, Quote.literal]
  | unclosedLiteral => simp [Region.construct]
  | line => simp [Region.construct]
  | block => simp [Region.construct, blockText]
  | unclosedBlock => simp [Region.construct]

/-- Live code at the front of a lexed sequence is a code point that is no key character, or a
word. -/
theorem Lexed.live_cases {e : Bool} {c : CodePoint} {t : Text} {rest : List Lexeme}
    (h : Lexed e ((c :: t).map live :: rest)) :
    (t = [] ∧ isKeyPoint c = false ∧ (e = true ∨ Mode.opening? c (spelled rest).head? = none) ∧
        Lexed (!e && c = '\\') rest) ∨
      (∀ d ∈ c :: t, isKeyPoint d) ∧ (∀ m ∈ rest.flatten.head?, isKeyMark m = false) ∧
        Lexed false rest := by
  generalize hl : (c :: t).map live = l at h
  have htext : c :: t = points l := by rw [← hl, points_map_mark]
  cases h with
  | point hkey hopen hrest =>
    cases htext
    exact .inl ⟨rfl, hkey, hopen, hrest⟩
  | word _ hkey hnext hrest =>
    rw [points_map_mark] at htext
    exact .inr ⟨htext ▸ hkey, hnext, hrest⟩
  -- the first mark of a construct opens, and no live mark does
  | literal => simp [Region.construct, Quote.literal, Region.mark] at hl
  | unclosedLiteral => simp [Region.construct, Region.mark] at hl
  | line => simp [Region.construct, Region.mark] at hl
  | block => simp [Region.construct, blockText, Region.mark] at hl
  | unclosedBlock => simp [Region.construct, Region.mark] at hl

/-- A lexeme is not joined to the next one unless both are live key characters. -/
theorem Lexed.apart {e : Bool} {l : Lexeme} {ls : List Lexeme} (h : Lexed e ls)
    (hword : (∀ x ∈ l.getLast?, isKeyMark x = false) ∨
      ∀ m ∈ ls.flatten.head?, isKeyMark m = false) :
    ∀ x ∈ l.getLast?, ∀ m ∈ ls.flatten.head?, sameLexeme x m = false := by
  intro x hx m hm
  have hkeys : isKeyMark x = false ∨ isKeyMark m = false :=
    hword.imp (fun h => h x hx) fun h => h m hm
  rcases h.head_cases m hm with hlive | hopens
  · rcases hkeys with hk | hk <;> simp [sameLexeme, Mark.isLive, hlive, Region.isLive, hk]
  · by_cases hm' : m.isLive
    · rcases hkeys with hk | hk <;> simp [sameLexeme, hm', hk]
    · simp [sameLexeme, hm', hopens]

/-- Marks outside live code are no key marks. -/
theorem getLast?_construct_not_key {r : Region} (hr : r ≠ .code) (t : Text) :
    ∀ x ∈ (r.construct t).getLast?, isKeyMark x = false := by
  intro x hx
  have hregion : x.region = r := region_of_mem_construct (List.mem_of_getLast? hx)
  cases r <;> simp_all [isKeyMark, Mark.isLive, Region.isLive]

/-- A run of marks that is not joined to the next lexeme is a lexeme. -/
theorem lexemes_cons {l : Lexeme} {ls : List Lexeme} (hne : l ≠ [])
    (hchain : l.IsChain fun a b => sameLexeme a b)
    (hapart : ∀ x ∈ l.getLast?, ∀ m ∈ ls.flatten.head?, sameLexeme x m = false)
    (h : lexemes ls.flatten = ls) : lexemes (l :: ls).flatten = l :: ls := by
  rw [lexemes, List.flatten_cons, runsOf_append hne hchain hapart]
  exact congrArg _ h

/-- A construct before a lexed sequence is a lexeme. -/
theorem Lexed.lexemes_construct {e : Bool} {ls : List Lexeme} (h : Lexed e ls)
    (hls : lexemes ls.flatten = ls) {r : Region} (hr : r ≠ .code) {t : Text} (ht : t ≠ []) :
    lexemes (r.construct t :: ls).flatten = r.construct t :: ls := by
  have hne : r.construct t ≠ [] := by
    obtain ⟨c, t, rfl⟩ := List.exists_cons_of_ne_nil ht
    simp [Region.construct]
  exact lexemes_cons hne (isChain_construct hr t) (h.apart (.inl (getLast?_construct_not_key hr t)))
    hls

/-- The lexemes of a lexed sequence's marks are the sequence. -/
theorem Lexed.lexemes_flatten {e : Bool} {ls : List Lexeme} (h : Lexed e ls) :
    lexemes ls.flatten = ls := by
  induction h with
  | nil => rfl
  | @point e c rest hkey _ hrest ih =>
    have hapart := hrest.apart (l := [live c]) (.inl (by simp [isKeyMark, hkey]))
    exact lexemes_cons (by simp) (List.isChain_singleton _) hapart ih
  | @word e w rest hne hkey hnext hrest ih =>
    have hapart := hrest.apart (l := w.map live) (.inr hnext)
    exact lexemes_cons (by simpa using hne) (isChain_word hkey) hapart ih
  | literal _ hrest ih => exact hrest.lexemes_construct ih (by simp) (by simp [Quote.literal])
  | unclosedLiteral => exact (Lexed.nil e).lexemes_construct rfl (by simp) (by simp)
  | line _ _ hrest ih => exact hrest.lexemes_construct ih (by simp) (by simp)
  | block _ hrest ih => exact hrest.lexemes_construct ih (by simp) (by simp [blockText])
  | unclosedBlock => exact (Lexed.nil e).lexemes_construct rfl (by simp) (by simp)

/-- A lexed sequence is the lexemes of its text. -/
theorem Lexed.lexemes_scan {ls : List Lexeme} (h : Lexed false ls) :
    lexemes (scan (spelled ls)) = ls := by
  rw [scan, Mode.start, h.scanFrom_spelled, h.lexemes_flatten]

omit [Alphabet] in
/-- The text of lexemes begins with the code point of their first mark. -/
theorem head?_spelled (ls : List Lexeme) :
    (spelled ls).head? = ls.flatten.head?.map Mark.point :=
  head?_points _

/-- What is left behind a run of key characters begins with none. -/
theorem not_isKeyMark_of_dropWhile {t : Text} {rest : List Lexeme}
    (h : spelled rest = t.dropWhile isKeyPoint) :
    ∀ m ∈ rest.flatten.head?, isKeyMark m = false := by
  intro m hm
  have hhead : (t.dropWhile isKeyPoint).head? = some m.point := by
    rw [← h, head?_spelled, hm]
    rfl
  have hk : isKeyPoint m.point = false := by
    have := List.head?_dropWhile_not isKeyPoint t
    rw [hhead] at this
    simpa using this
  simp [isKeyMark, hk]

/-- A run of key characters is a word before what follows it. -/
theorem exists_lexed_word {e : Bool} {c : CodePoint} {t : Text} (hkey : isKeyPoint c)
    (h : ∃ ls, Lexed false ls ∧ spelled ls = t.dropWhile isKeyPoint) :
    ∃ ls, Lexed e ls ∧ spelled ls = c :: t := by
  obtain ⟨rest, hrest, hspelled⟩ := h
  have hword : ∀ d ∈ c :: t.takeWhile isKeyPoint, isKeyPoint d := by
    intro d hd
    rcases List.mem_cons.mp hd with rfl | hd
    · exact hkey
    · exact List.mem_takeWhile_imp hd
  refine ⟨_, .word (by simp) hword (not_isKeyMark_of_dropWhile hspelled) hrest, ?_⟩
  rw [spelled_cons, points_map_mark, hspelled, List.cons_append, List.takeWhile_append_dropWhile]

section Constructs

variable {t : Text} (h : ∀ t' : Text, t'.length ≤ t.length → ∃ ls, Lexed false ls ∧ spelled ls = t')

include h

/-- Behind a quote a literal is read, or the text ends in it. -/
theorem exists_lexed_literal (q : Quote) : ∃ ls, Lexed false ls ∧ spelled ls = q.point :: t := by
  rcases exists_enclosed q false t with ⟨content, rest, rfl, hq⟩ | ⟨e, hq⟩
  · obtain ⟨ls, hls, rfl⟩ := h rest (by rw [List.length_append, List.length_cons]; omega)
    refine ⟨_, .literal hq hls, ?_⟩
    rw [spelled_cons, Region.points_construct, Quote.literal]
    simp
  · refine ⟨_, .unclosedLiteral hq, ?_⟩
    rw [spelled_cons, Region.points_construct, spelled_nil, List.append_nil]

/-- Behind two solidi the rest of the line is a comment. -/
theorem exists_lexed_line :
    ∃ ls, Lexed false ls ∧ spelled ls = .scalar '/' :: .scalar '/' :: t := by
  have hbody : ∀ d ∈ t.takeWhile fun d => !d.isLineEnd, d.isLineEnd = false := by
    intro d hd
    simpa using List.mem_takeWhile_imp hd
  obtain ⟨ls, hls, hspelled⟩ := h _ (List.length_dropWhile_le (fun d => !d.isLineEnd) t)
  have hend : ∀ d ∈ (spelled ls).head?, d.isLineEnd := by
    intro d hd
    have hhead := List.head?_dropWhile_not (fun d => !d.isLineEnd) t
    rw [← hspelled, hd] at hhead
    simpa using hhead
  refine ⟨_, .line hbody hend hls, ?_⟩
  rw [spelled_cons, Region.points_construct, hspelled]
  simp

/-- Behind a solidus and an asterisk a block comment is read, or the text ends in it. -/
theorem exists_lexed_block :
    ∃ ls, Lexed false ls ∧ spelled ls = .scalar '/' :: .scalar '*' :: t := by
  rcases exists_blockEnd t with ⟨body, rest, rfl, hb⟩ | hb
  · obtain ⟨ls, hls, rfl⟩ := h rest (by simp only [List.length_append, List.length_cons]; omega)
    refine ⟨_, .block hb hls, ?_⟩
    rw [spelled_cons, Region.points_construct, blockText]
    simp
  · refine ⟨_, .unclosedBlock hb, ?_⟩
    rw [spelled_cons, Region.points_construct, spelled_nil, List.append_nil]

end Constructs

/-- Each text has a lexed sequence, whether its first code point is escaped or not. -/
theorem exists_lexed (e : Bool) (t : Text) : ∃ ls, Lexed e ls ∧ spelled ls = t := by
  -- behind a construct or a word the text goes on several code points further
  induction hn : t.length using Nat.strong_induction_on generalizing e t with
  | _ n ih =>
  subst hn
  cases t with
  | nil => exact ⟨[], .nil e, rfl⟩
  | cons c t =>
    have hshorter : ∀ t' : Text, t'.length ≤ t.length → ∀ e, ∃ ls, Lexed e ls ∧ spelled ls = t' :=
      fun t' ht' e => ih t'.length (Nat.lt_succ_of_le ht') e t' rfl
    by_cases hkey : isKeyPoint c
    · exact exists_lexed_word hkey
        (hshorter _ (List.length_dropWhile_le isKeyPoint t) false)
    · have hkey' : isKeyPoint c = false := Bool.eq_false_of_not_eq_true hkey
      by_cases hopen : e = true ∨ Mode.opening? c t.head? = none
      · obtain ⟨rest, hrest, rfl⟩ := hshorter t le_rfl (!e && c = '\\')
        exact ⟨_, .point hkey' hopen hrest, rfl⟩
      · obtain ⟨he, hmode⟩ := not_or.mp hopen
        have he' : e = false := Bool.eq_false_of_not_eq_true he
        subst he'
        obtain ⟨mode, hmode⟩ := Option.ne_none_iff_exists'.mp hmode
        rcases opening?_eq_some hmode with ⟨q, rfl⟩ | ⟨rfl, hnext⟩ | ⟨rfl, hnext⟩
        · exact exists_lexed_literal (fun t' ht' => hshorter t' ht' false) q
        · obtain ⟨t, rfl⟩ := List.head?_eq_some_iff.mp hnext
          exact exists_lexed_line fun t' ht' => hshorter t' (Nat.le_succ_of_le ht') false
        · obtain ⟨t, rfl⟩ := List.head?_eq_some_iff.mp hnext
          exact exists_lexed_block fun t' ht' => hshorter t' (Nat.le_succ_of_le ht') false

/-- The lexemes of a text are lexed. -/
theorem lexed_lexemes (t : Text) : Lexed false (lexemes (scan t)) := by
  obtain ⟨ls, hls, rfl⟩ := exists_lexed false t
  rwa [hls.lexemes_scan]

/-- The lexemes of a text spell it. -/
@[simp] theorem spelled_lexemes (t : Text) : spelled (lexemes (scan t)) = t := by
  obtain ⟨ls, hls, rfl⟩ := exists_lexed false t
  rw [hls.lexemes_scan]

end SourcePress.Repair
