import SourcePress.Proofs.Repair.Shape

/-!
# Mending lexemes in one pass

The rules of repair do three things to a lexeme: a comma is dropped, a word gets quotation marks, a
closed single-quoted literal gets other ones. Each depends on the neighbours of the lexeme alone. A
mended sequence is lexed again, so a scan of its text finds the lexemes that were put there.
-/

namespace SourcePress.Repair

open Lexis

/-- The live code point next to a lexeme, for each class of blanks that is passed over. -/
abbrev Neighbour := (CodePoint → Bool) → Option CodePoint

/-- The neighbour in front of a text. -/
def noNeighbour : Neighbour := fun _ => none

/-- The neighbour that lexemes begin with. -/
def ahead (ls : List Lexeme) : Neighbour := fun blank => frontOf? blank ls

/-- The neighbour behind a lexeme, given the one before it. -/
def behind (before : Neighbour) (l : Lexeme) : Neighbour := fun blank =>
  if Lexeme.isBlank blank l then before blank else Lexeme.back? l

/-- The neighbours between which lexemes are mended. -/
structure Remedies where
  /-- A comma is dropped. -/
  drops : Neighbour → Neighbour → Bool
  /-- A word gets quotation marks. -/
  quotes : Neighbour → Neighbour → Bool
  /-- A single-quoted literal gets quotation marks. -/
  requotes : Neighbour → Neighbour → Bool

/-- A content between quotation marks as a lexeme. -/
def doubleLiteral (content : Text) : Lexeme :=
  (Region.string .double).construct (Quote.double.literal content)

/-- The content of a literal. -/
def contentOf (l : Lexeme) : Text := ((points l).drop 1).dropLast

variable [Alphabet]

/-- What is left of a lexeme between two neighbours. -/
def Remedies.apply (r : Remedies) (before after : Neighbour) (l : Lexeme) : List Lexeme :=
  if Lexeme.front? l = some (.scalar ',') ∧ r.drops before after then []
  else if Lexeme.isWord l ∧ r.quotes before after then [doubleLiteral (points l)]
  else if (Lexeme.isSingleQuoted l ∧ isClosed l) ∧ r.requotes before after then
    [doubleLiteral (requoteContent (contentOf l))]
  else [l]

/-- What is left of lexemes behind a neighbour. -/
def mendFrom (r : Remedies) (before : Neighbour) : List Lexeme → List Lexeme
  | [] => []
  | l :: rest => r.apply before (ahead rest) l ++ mendFrom r (behind before l) rest

/-- True of the two brackets before which a comma is dropped. -/
def Closes (c : Option CodePoint) : Prop := c = some (.scalar '}') ∨ c = some (.scalar ']')

instance (c : Option CodePoint) : Decidable (Closes c) := by
  unfold Closes
  infer_instance

/-- True of the two code points behind which a bare key stands. -/
def PrecedesKey (c : Option CodePoint) : Prop := c = some (.scalar '{') ∨ c = some (.scalar ',')

instance (c : Option CodePoint) : Decidable (PrecedesKey c) := by
  unfold PrecedesKey
  infer_instance

/-- What the remedies of repair have in common. -/
structure Remedies.Sound (r : Remedies) : Prop where
  /-- A comma is dropped before a closing bracket only. -/
  drops : ∀ {before after}, r.drops before after = true → Closes (after CodePoint.isSpacing)
  /-- A word gets quotation marks behind a brace or a comma only. -/
  quotes : ∀ {before after}, r.quotes before after = true →
    PrecedesKey (before CodePoint.isSpacing)

section Cases

variable {r : Remedies} {before after : Neighbour}

/-- A point other than a dropped comma stays. -/
theorem Remedies.apply_point {c : CodePoint} (hkey : isKeyPoint c = false) :
    r.apply before after [live c] =
      if c = .scalar ',' ∧ r.drops before after then [] else [[live c]] := by
  simp [Remedies.apply, hkey]

/-- A word stays or gets quotation marks. -/
theorem Remedies.apply_word {w : Text} (hne : w ≠ []) (hkey : ∀ c ∈ w, isKeyPoint c) :
    r.apply before after (w.map live) =
      if r.quotes before after then [doubleLiteral w] else [w.map live] := by
  have hcomma : w.head? ≠ some (.scalar ',') := by
    intro hw
    exact ne_of_isKeyPoint (hkey _ (List.mem_of_head? hw)) (d := .scalar ',') (by decide) rfl
  simp [Remedies.apply, hcomma, Lexeme.isWord_word hne hkey]

omit [Alphabet] in
/-- The content of a literal stands between its quotes. -/
@[simp] theorem contentOf_literal (q : Quote) (content : Text) :
    contentOf ((Region.string q).construct (q.literal content)) = content := by
  rw [contentOf, Region.points_construct, Quote.literal, List.drop_one, List.tail_cons,
    List.dropLast_concat]

/-- Of the constructs only closed literals between single quotes are mended. -/
theorem Remedies.apply_construct {region : Region} (hr : region ≠ .code) (t : Text) :
    r.apply before after (region.construct t) =
      if (Lexeme.isSingleQuoted (region.construct t) ∧ isClosed (region.construct t)) ∧
          r.requotes before after then
        [doubleLiteral (requoteContent (contentOf (region.construct t)))]
      else [region.construct t] := by
  simp [Remedies.apply, Lexeme.front?_construct hr, Lexeme.isWord_construct hr]

/-- A literal stays or is a single-quoted one that gets quotation marks. -/
theorem Remedies.apply_literal {q : Quote} {content : Text} (h : q.Encloses content) :
    r.apply before after ((Region.string q).construct (q.literal content)) =
      if q = .single ∧ r.requotes before after then [doubleLiteral (requoteContent content)]
      else [(Region.string q).construct (q.literal content)] := by
  have hsingle : Lexeme.isSingleQuoted ((Region.string q).construct (q.literal content)) =
      decide (q = .single) := by
    cases q <;> rfl
  rw [Remedies.apply_construct (by simp), hsingle, isClosed_literal h, contentOf_literal]
  simp

/-- A construct that is no closed single-quoted literal stays. -/
theorem Remedies.apply_inert {region : Region} {t : Text} (hr : region ≠ .code)
    (h : Lexeme.isSingleQuoted (region.construct t) = false ∨
      isClosed (region.construct t) = false) :
    r.apply before after (region.construct t) = [region.construct t] := by
  rw [Remedies.apply_construct hr, if_neg]
  rcases h with h | h <;> simp [h]

end Cases

/-- A key has neither a quotation mark nor a backslash, so it can be a content as it stands. -/
theorem encloses_of_isKeyPoint {w : Text} (hkey : ∀ c ∈ w, isKeyPoint c) :
    Quote.double.Encloses w := by
  unfold Quote.Encloses
  induction w with
  | nil => rfl
  | cons c w ih =>
    have hc := hkey c List.mem_cons_self
    have hquote : c ≠ Quote.double.point := ne_of_isKeyPoint hc (by decide)
    have hescape : decide (c = .scalar '\\') = false :=
      decide_eq_false (ne_of_isKeyPoint hc (by decide))
    rw [Quote.escapeAfter?, if_neg hquote, hescape]
    exact ih fun d hd => hkey d (List.mem_cons_of_mem c hd)

omit [Alphabet] in
/-- What single quotes enclose is enclosed by quotation marks once it is requoted. -/
theorem encloses_requoteContent {content : Text} (h : Quote.single.Encloses content) :
    Quote.double.Encloses (requoteContent content) := by
  unfold Quote.Encloses at h ⊢
  fun_induction requoteContent content with
  | case1 => rfl
  | case2 => rfl
  | case3 c hc =>
    have hquote : c ≠ Quote.double.point := hc
    rw [Quote.escapeAfter?] at h
    split at h
    · cases h
    · rw [Quote.escapeAfter?, if_neg hquote]
      exact h
  | case4 d rest ih =>
    have hi := ih h
    split
    · exact hi
    · exact hi
  | case5 c d rest hc ih =>
    rw [Quote.escapeAfter?, decide_eq_false hc] at h
    split at h
    · cases h
    · have hi := ih h
      split
      · exact hi
      · next hquote =>
        have hquote' : c ≠ Quote.double.point := hquote
        rw [List.cons_append, List.nil_append, Quote.escapeAfter?, if_neg hquote',
          decide_eq_false hc]
        exact hi

/-- Before a bracket, spacing passed over, stands a point that no remedy changes. -/
theorem mendFrom_of_closes {ls : List Lexeme} (hs : ∀ l ∈ ls, Shape l)
    (h : Closes (frontOf? CodePoint.isSpacing ls)) (r : Remedies) (before : Neighbour) :
    ∃ c rest, ls = [live c] :: rest ∧ (c.isSpacing = true ∨ Closes (some c)) ∧
      mendFrom r before ls = [live c] :: mendFrom r (behind before [live c]) rest := by
  cases ls with
  | nil => simp [Closes, frontOf?] at h
  | cons l rest =>
    cases hs l List.mem_cons_self with
    | @point c hkey =>
      have hc : c.isSpacing = true ∨ Closes (some c) := by
        by_cases hspacing : c.isSpacing
        · exact .inl hspacing
        · rw [frontOf?, Lexeme.isBlank_point, if_neg hspacing] at h
          exact .inr h
      have hcomma : c ≠ .scalar ',' := by
        rintro rfl
        revert hc
        decide
      refine ⟨c, rest, rfl, hc, ?_⟩
      rw [mendFrom, Remedies.apply_point hkey, if_neg fun hd => hcomma hd.1]
      rfl
    | @word w hne hkey =>
      rw [frontOf?, Lexeme.isBlank_word (.inl rfl) hkey, if_neg Bool.false_ne_true,
        Lexeme.front?_word] at h
      rcases h with h | h
      · exact absurd rfl (ne_of_isKeyPoint (hkey _ (List.mem_of_head? h)) (by decide))
      · exact absurd rfl (ne_of_isKeyPoint (hkey _ (List.mem_of_head? h)) (by decide))
    | construct hr =>
      rw [frontOf?, Lexeme.isBlank_construct _ hr, if_neg Bool.false_ne_true,
        Lexeme.front?_construct hr] at h
      simp [Closes] at h

/-- True of a mark before which everything reads as it does at the end of a text. -/
def IsQuiet (m : Mark) : Prop :=
  isKeyMark m = false ∧ m.point ≠ .scalar '/' ∧ m.point ≠ .scalar '*'

/-- A quotation mark is quiet. -/
theorem isQuiet_doubleLiteral (content : Text) :
    ∀ m ∈ (doubleLiteral content).head?, IsQuiet m := by
  intro m hm
  cases hm
  exact ⟨rfl, by decide, by decide⟩

/-- Spacing and closing brackets are quiet. -/
theorem isQuiet_live {c : CodePoint} (h : c.isSpacing = true ∨ Closes (some c)) :
    IsQuiet (live c) := by
  rcases h with h | h | h
  · refine ⟨isKeyPoint_of_isBlank (CodePoint.isBlank_of_isSpacing h), ?_, ?_⟩
    · rintro rfl
      revert h
      decide
    · rintro rfl
      revert h
      decide
  · cases h
    exact ⟨isKeyPoint_of_isAsciiMark (by decide), by decide, by decide⟩
  · cases h
    exact ⟨isKeyPoint_of_isAsciiMark (by decide), by decide, by decide⟩

/-- No key character ends a line. -/
theorem isLineEnd_of_isKeyPoint {c : CodePoint} (h : isKeyPoint c) : c.isLineEnd = false := by
  refine Bool.eq_false_of_not_eq_true fun hend => ?_
  rw [isKeyPoint_of_isBlank (CodePoint.isBlank_of_isLineEnd hend)] at h
  cases h

/-- What mended lexemes begin with is what they began with, or it is quiet and no line ended
there. -/
theorem head?_mendFrom {r : Remedies} (hr : r.Sound) (before : Neighbour) {e : Bool}
    {ls : List Lexeme} (h : Lexed e ls) :
    ∀ m ∈ (mendFrom r before ls).flatten.head?, ∃ m' ∈ ls.flatten.head?,
      m = m' ∨ IsQuiet m ∧ m'.point.isLineEnd = false := by
  intro m hm
  cases h with
  | nil => cases hm
  | @point _ c rest hkey hopen hrest =>
    rw [mendFrom, Remedies.apply_point hkey] at hm
    split at hm
    · next hdrop =>
      obtain ⟨d, rest', hd, hquiet, hmend⟩ :=
        mendFrom_of_closes hrest.shape (hr.drops hdrop.2) r (behind before [live c])
      rw [List.nil_append, hmend] at hm
      cases hm
      refine ⟨live c, rfl, .inr ⟨isQuiet_live hquiet, ?_⟩⟩
      rw [Region.mark_point, hdrop.1]
      rfl
    · cases hm
      exact ⟨live c, rfl, .inl rfl⟩
  | @word _ w rest hne hkey hnext hrest =>
    rw [mendFrom, Remedies.apply_word hne hkey] at hm
    obtain ⟨c, w, rfl⟩ := List.exists_cons_of_ne_nil hne
    refine ⟨live c, rfl, ?_⟩
    split at hm
    · exact .inr ⟨isQuiet_doubleLiteral (c :: w) m hm,
        isLineEnd_of_isKeyPoint (hkey c List.mem_cons_self)⟩
    · cases hm
      exact .inl rfl
  | @literal q content rest hq hrest =>
    rw [mendFrom, Remedies.apply_literal hq] at hm
    refine ⟨⟨q.point, .string q, true⟩, rfl, ?_⟩
    split at hm
    · refine .inr ⟨isQuiet_doubleLiteral (requoteContent content) m hm, ?_⟩
      cases q <;> rfl
    · cases hm
      exact .inl rfl
  | unclosedLiteral hq =>
    rw [mendFrom, Remedies.apply_inert (by simp) (.inr (isClosed_unclosed hq))] at hm
    cases hm
    exact ⟨_, rfl, .inl rfl⟩
  | line hbody hnext hrest =>
    rw [mendFrom, Remedies.apply_inert (by simp) (.inl rfl)] at hm
    cases hm
    exact ⟨_, rfl, .inl rfl⟩
  | block hb hrest =>
    rw [mendFrom, Remedies.apply_inert (by simp) (.inl rfl)] at hm
    cases hm
    exact ⟨_, rfl, .inl rfl⟩
  | unclosedBlock hb =>
    rw [mendFrom, Remedies.apply_inert (by simp) (.inl rfl)] at hm
    cases hm
    exact ⟨_, rfl, .inl rfl⟩

/-- Where no word goes on, none goes on into mended lexemes. -/
theorem isKeyMark_head?_mendFrom {r : Remedies} (hr : r.Sound) (before : Neighbour) {e : Bool}
    {ls : List Lexeme} (h : Lexed e ls) (hnext : ∀ m ∈ ls.flatten.head?, isKeyMark m = false) :
    ∀ m ∈ (mendFrom r before ls).flatten.head?, isKeyMark m = false := by
  intro m hm
  obtain ⟨m', hm', rfl | ⟨hquiet, -⟩⟩ := head?_mendFrom hr before h m hm
  · exact hnext m hm'
  · exact hquiet.1

/-- Where a line ends, it still ends before mended lexemes. -/
theorem isLineEnd_head?_mendFrom {r : Remedies} (hr : r.Sound) (before : Neighbour) {e : Bool}
    {ls : List Lexeme} (h : Lexed e ls) (hnext : ∀ c ∈ (spelled ls).head?, c.isLineEnd) :
    ∀ c ∈ (spelled (mendFrom r before ls)).head?, c.isLineEnd := by
  intro c hc
  rw [head?_spelled] at hc
  obtain ⟨m, hm, rfl⟩ := Option.map_eq_some_iff.mp hc
  obtain ⟨m', hm', heq⟩ := head?_mendFrom hr before h m hm
  have hend : m'.point.isLineEnd = true := hnext m'.point (by rw [head?_spelled, hm']; rfl)
  rcases heq with rfl | ⟨-, hnot⟩
  · exact hend
  · rw [hend] at hnot
    cases hnot

/-- A code point that opens nothing there opens nothing before mended lexemes. -/
theorem opening?_mendFrom {r : Remedies} (hr : r.Sound) (before : Neighbour) {e : Bool}
    {ls : List Lexeme} (h : Lexed e ls) {c : CodePoint}
    (hopen : Mode.opening? c (spelled ls).head? = none) :
    Mode.opening? c (spelled (mendFrom r before ls)).head? = none := by
  have hq := ofPoint?_of_opening? hopen
  rw [head?_spelled]
  cases hm : (mendFrom r before ls).flatten.head? with
  | none => exact opening?_of_next hq (by simp) (by simp)
  | some m =>
    obtain ⟨m', hm', heq | ⟨⟨_, hsolidus, hasterisk⟩, _⟩⟩ := head?_mendFrom hr before h m hm
    · rw [heq, ← hm', ← head?_spelled]
      exact hopen
    · exact opening?_of_next hq (by simpa using hsolidus) (by simpa using hasterisk)

/-- A point that is quiet and no backslash reads alike whether it is escaped or not. -/
theorem Lexed.escaped {e : Bool} {c : CodePoint} {rest : List Lexeme}
    (h : Lexed false ([live c] :: rest)) (hc : IsQuiet (live c)) (hescape : c ≠ .scalar '\\') :
    Lexed e ([live c] :: rest) := by
  rcases Lexed.live_cases (t := []) h with ⟨-, hkey, hopen, hrest⟩ | ⟨hkey, -, -⟩
  · have hopen' := hopen.resolve_left (by simp)
    have hrest' : Lexed (!e && decide (c = .scalar '\\')) rest := by
      simpa [hescape] using hrest
    exact .point hkey (.inr hopen') hrest'
  · have hk : isKeyPoint c = false := hc.1
    rw [hkey c List.mem_cons_self] at hk
    cases hk

/-- Before a bracket mended lexemes read alike whether they are escaped or not. -/
theorem Lexed.escaped_mendFrom {r : Remedies} {before : Neighbour} {e : Bool} {ls : List Lexeme}
    (hs : ∀ l ∈ ls, Shape l) (hcloses : Closes (frontOf? CodePoint.isSpacing ls))
    (h : Lexed false (mendFrom r before ls)) : Lexed e (mendFrom r before ls) := by
  obtain ⟨c, rest, -, hquiet, hmend⟩ := mendFrom_of_closes hs hcloses r before
  have hescape : c ≠ .scalar '\\' := by
    rintro rfl
    revert hquiet
    decide
  rw [hmend] at h ⊢
  exact h.escaped (isQuiet_live hquiet) hescape

/-- Mended lexemes are lexed. What is escaped stands behind a backslash. -/
theorem Lexed.mendFrom {r : Remedies} (hr : r.Sound) {before : Neighbour} {e : Bool}
    {ls : List Lexeme} (h : Lexed e ls)
    (hescape : e = true → before CodePoint.isSpacing = some (.scalar '\\')) :
    Lexed e (mendFrom r before ls) := by
  induction h generalizing before with
  | nil e => exact .nil e
  | @point e c rest hkey hopen hrest ih =>
    have hbehind : (!e && decide (c = .scalar '\\')) = true →
        behind before [live c] CodePoint.isSpacing = some (.scalar '\\') := by
      intro hb
      have hc : c = .scalar '\\' := by simpa using (Bool.and_eq_true_iff.mp hb).2
      rw [hc]
      rfl
    have hi := ih hbehind
    rw [Repair.mendFrom, Remedies.apply_point hkey]
    split
    -- without the comma the rest may stand behind a backslash, and a bracket does not mind
    · next hdrop =>
      have hcomma : (!e && decide (c = .scalar '\\')) = false := by
        rw [hdrop.1]
        simp
      rw [hcomma] at hi
      exact hi.escaped_mendFrom hrest.shape (hr.drops hdrop.2)
    · refine .point hkey ?_ hi
      rcases hopen with he | hopen
      · exact .inl he
      · exact .inr (opening?_mendFrom hr _ hrest hopen)
  | @word e w rest hne hkey hnext hrest ih =>
    have hi := @ih (behind before (w.map live)) (by simp)
    rw [Repair.mendFrom, Remedies.apply_word hne hkey]
    split
    -- an escaped quotation mark would open nothing, but no key stands behind a backslash
    · next hquote =>
      have he : e = false := by
        refine Bool.eq_false_of_not_eq_true fun he => ?_
        have hkeys := hr.quotes hquote
        rw [hescape he] at hkeys
        revert hkeys
        decide
      rw [he]
      exact .literal (encloses_of_isKeyPoint hkey) hi
    · exact .word hne hkey (isKeyMark_head?_mendFrom hr _ hrest hnext) hi
  | @literal q content rest hq hrest ih =>
    have hi := @ih (behind before ((Region.string q).construct (q.literal content))) (by simp)
    rw [Repair.mendFrom, Remedies.apply_literal hq]
    split
    · next hrequote =>
      rw [hrequote.1] at hq
      exact .literal (encloses_requoteContent hq) hi
    · exact .literal hq hi
  | unclosedLiteral hq =>
    rw [Repair.mendFrom, Remedies.apply_inert (by simp) (.inr (isClosed_unclosed hq))]
    exact .unclosedLiteral hq
  | @line body rest hbody hnext hrest ih =>
    have hi := @ih (behind before (Region.lineComment.construct ('/' :: '/' :: body))) (by simp)
    rw [Repair.mendFrom, Remedies.apply_inert (by simp) (.inl rfl)]
    exact .line hbody (isLineEnd_head?_mendFrom hr _ hrest hnext) hi
  | @block body rest hb hrest ih =>
    have hi := @ih (behind before (Region.blockComment.construct (blockText body))) (by simp)
    rw [Repair.mendFrom, Remedies.apply_inert (by simp) (.inl rfl)]
    exact .block hb hi
  | unclosedBlock hb =>
    rw [Repair.mendFrom, Remedies.apply_inert (by simp) (.inl rfl)]
    exact .unclosedBlock hb

end SourcePress.Repair
