import SourcePress.Proofs.Repair.Script

/-!
# Where the bare values of a text stand

A bare value is a longest run of live key characters that begins with a name character, stands
behind a live colon and live spacing, and is no JSON literal. The search goes from lexeme to lexeme
and remembers the neighbour; it finds every such run once, in the order of the text. No other step
of a repair makes, hides or moves one, so the words that a repair refuses are those of the text
before it was mended, whatever the switches say.
-/

namespace SourcePress.Repair

open Lexis

variable [Alphabet]

/-- A word is a bare value of a text at an offset: the scan of the text shows a live colon, live
spacing and the live word, and the word does not go on. -/
def IsBareValueAt (t : Text) (offset : Nat) (w : Text) : Prop :=
  ∃ (front : List Mark) (gap : Text) (back : List Mark),
    scan t = front ++ live (.scalar ':') :: (gap.map live ++ (w.map live ++ back)) ∧
    (∀ c ∈ gap, c.isSpacing) ∧ w.head?.any isNameStart ∧ (∀ c ∈ w, isKeyPoint c) ∧
    (∀ m ∈ back.head?, isKeyMark m = false) ∧ isLiteralWord w = false ∧
    offset = front.length + 1 + gap.length

/-- The bare values of a text with their offsets, in the order of the text. -/
structure IsBareValueList (t : Text) (found : List (Nat × Text)) : Prop where
  /-- The offsets go up. -/
  sorted : found.Pairwise fun a b => a.1 < b.1
  /-- All bare values are listed and nothing else. -/
  mem_iff : ∀ offset w, (offset, w) ∈ found ↔ IsBareValueAt t offset w

/-- The bare values among lexemes, the first of them at an offset behind a neighbour. -/
def locatedFrom (offset : Nat) (before : Neighbour) : List Lexeme → List (Nat × Text)
  | [] => []
  | l :: rest =>
    (if isBareWord (before CodePoint.isSpacing) l then [(offset, points l)] else []) ++
      locatedFrom (offset + l.length) (behind before l) rest

/-- Without their offsets these are the bare values among the lexemes. -/
theorem map_snd_locatedFrom (offset : Nat) (before : Neighbour) (ls : List Lexeme) :
    (locatedFrom offset before ls).map Prod.snd = bareFrom before ls := by
  induction ls generalizing offset before with
  | nil => rfl
  | cons l rest ih =>
    rw [locatedFrom, bareFrom, List.map_append, ih]
    split <;> rfl

/-- What is found among lexemes is a lexeme at its offset, behind the neighbour that the lexemes in
front of it leave. -/
theorem mem_locatedFrom {offset : Nat} {before : Neighbour} {ls : List Lexeme} {n : Nat}
    {w : Text} :
    (n, w) ∈ locatedFrom offset before ls ↔
      ∃ front l rest, ls = front ++ l :: rest ∧
        isBareWord (front.foldl behind before CodePoint.isSpacing) l ∧
        n = offset + front.flatten.length ∧ w = points l := by
  induction ls generalizing offset before with
  | nil => simp [locatedFrom]
  | cons l ls ih =>
    rw [locatedFrom, List.mem_append, ih]
    constructor
    · rintro (hmem | ⟨front, l', rest, rfl, hbare, rfl, rfl⟩)
      · split at hmem
        · next hbare =>
          cases List.mem_singleton.mp hmem
          exact ⟨[], l, ls, rfl, hbare, rfl, rfl⟩
        · cases hmem
      · refine ⟨l :: front, l', rest, rfl, hbare, ?_, rfl⟩
        rw [List.flatten_cons, List.length_append, Nat.add_assoc]
    · rintro ⟨front, l', rest, hsplit, hbare, rfl, rfl⟩
      cases front with
      | nil =>
        cases hsplit
        exact .inl (by rw [if_pos (by exact hbare)]; exact List.mem_singleton.mpr rfl)
      | cons _ front =>
        cases hsplit
        refine .inr ⟨front, l', rest, rfl, hbare, ?_, rfl⟩
        rw [List.flatten_cons, List.length_append, Nat.add_assoc]

/-- What is found among lexemes is found in their order, as no lexeme is empty. -/
theorem pairwise_locatedFrom {ls : List Lexeme} (hne : ∀ l ∈ ls, l ≠ []) (offset : Nat)
    (before : Neighbour) :
    (locatedFrom offset before ls).Pairwise fun a b => a.1 < b.1 := by
  induction ls generalizing offset before with
  | nil => exact .nil
  | cons l rest ih =>
    have hrest := ih (fun l hl => hne l (List.mem_cons_of_mem _ hl)) (offset + l.length)
      (behind before l)
    rw [locatedFrom]
    split
    · refine List.pairwise_cons.mpr ⟨fun ⟨n, w⟩ hmem => ?_, hrest⟩
      obtain ⟨front, _, _, _, _, rfl, _⟩ := mem_locatedFrom.mp hmem
      have hpos : 0 < l.length := List.length_pos_iff.mpr (hne l List.mem_cons_self)
      exact Nat.lt_of_lt_of_le (Nat.lt_add_of_pos_right hpos) (Nat.le_add_right _ _)
    · exact hrest

/-- A blank lexeme is a live blank alone. -/
theorem Shape.eq_of_isBlank {l : Lexeme} (hs : Shape l) {blank : CodePoint → Bool}
    (h : Lexeme.isBlank blank l = true) : ∃ c, l = [live c] ∧ blank c = true := by
  cases hs with
  | point => exact ⟨_, rfl, h⟩
  | @word w =>
    match w with
    | [] => cases h
    | [c] => exact ⟨c, rfl, h⟩
    | _ :: _ :: _ => cases h
  | construct hr =>
    rw [Lexeme.isBlank_construct _ hr] at h
    cases h

/-- Behind a lexeme stands a point that is no key character only if the lexeme is that point. -/
theorem Shape.eq_of_back? {l : Lexeme} (hs : Shape l) {c : CodePoint} (hc : isKeyPoint c = false)
    (h : Lexeme.back? l = some c) : l = [live c] := by
  cases hs with
  | point =>
    cases h
    rfl
  | word _ hkey =>
    rw [Lexeme.back?_word] at h
    rw [hkey c (List.mem_of_getLast? h)] at hc
    cases hc
  | construct hr =>
    rw [Lexeme.back?_construct hr] at h
    cases h

/-- The neighbour behind lexemes is a colon only if they end in it and spacing. -/
theorem exists_colon {front : List Lexeme} (hs : ∀ l ∈ front, Shape l)
    (h : front.foldl behind noNeighbour CodePoint.isSpacing = some (.scalar ':')) :
    ∃ front' gap, front = front' ++ [live (.scalar ':')] :: blankLexemes gap ∧
      ∀ c ∈ gap, c.isSpacing := by
  induction front using List.reverseRecOn with
  | nil => cases h
  | append_singleton front l ih =>
    have hl : Shape l := hs l (by simp)
    rw [List.foldl_concat, behind] at h
    split at h
    · next hblank =>
      obtain ⟨c, rfl, hc⟩ := hl.eq_of_isBlank hblank
      obtain ⟨front', gap, rfl, hgap⟩ := ih (fun l hl => hs l (List.mem_append_left _ hl)) h
      refine ⟨front', gap ++ [c], by simp [blankLexemes], ?_⟩
      simpa using fun d hd => hd.elim (hgap d) fun hd => hd ▸ hc
    · rw [hl.eq_of_back? (isKeyPoint_of_isAsciiMark (by decide)) h]
      exact ⟨front, [], rfl, by simp⟩

omit [Alphabet] in
/-- Spacing does not change the neighbour. -/
theorem foldl_behind_blankLexemes {gap : Text} (hgap : ∀ c ∈ gap, c.isSpacing)
    (before : Neighbour) :
    (blankLexemes gap).foldl behind before CodePoint.isSpacing = before CodePoint.isSpacing := by
  induction gap generalizing before with
  | nil => rfl
  | cons c gap ih =>
    have hi := ih (fun d hd => hgap d (List.mem_cons_of_mem c hd)) (behind before [live c])
    have hc : Lexeme.isBlank CodePoint.isSpacing [live c] = true := hgap c List.mem_cons_self
    have hcons : blankLexemes (c :: gap) = [live c] :: blankLexemes gap := rfl
    rw [hcons, List.foldl_cons, hi, behind, if_pos hc]

/-- A live mark is not joined to the next mark unless both are of key characters. -/
theorem sameLexeme_live {c : CodePoint} {m : Mark}
    (h : isKeyPoint c = false ∨ isKeyMark m = false) : sameLexeme (live c) m = false := by
  have hkey : isKeyMark (live c) = isKeyPoint c := rfl
  cases hm : m.region with
  | code => rcases h with h | h <;> simp [sameLexeme, Mark.isLive, hm, Region.isLive, hkey, h]
  | _ => simp [sameLexeme, Mark.isLive, hm, Region.isLive, Region.alike]

omit [Alphabet] in
/-- The marks of points alone. -/
theorem flatten_blankLexemes (t : Text) : (blankLexemes t).flatten = t.map live := by
  induction t with
  | nil => rfl
  | cons c t ih => exact congrArg (live c :: ·) ih

/-- Points that are no key characters are lexemes one by one. -/
theorem lexemes_points_append {t : Text} (ht : ∀ c ∈ t, isKeyPoint c = false)
    (marks : List Mark) :
    lexemes (t.map live ++ marks) = blankLexemes t ++ lexemes marks := by
  induction t with
  | nil => rfl
  | cons c t ih =>
    have hi := ih fun d hd => ht d (List.mem_cons_of_mem c hd)
    have hapart : Apart sameLexeme [live c] (t.map live ++ marks) := by
      rintro _ ⟨⟩ m -
      exact sameLexeme_live (.inl (ht c List.mem_cons_self))
    have hsplit : (c :: t).map live ++ marks = [live c] ++ (t.map live ++ marks) := rfl
    rw [lexemes, hsplit, runsOf_append (by simp) (List.isChain_singleton _) hapart]
    exact congrArg _ hi

/-- A live word that does not go on is a lexeme. -/
theorem lexemes_word_append {w : Text} (hne : w ≠ []) (hkey : ∀ c ∈ w, isKeyPoint c)
    {marks : List Mark} (hend : ∀ m ∈ marks.head?, isKeyMark m = false) :
    lexemes (w.map live ++ marks) = w.map live :: lexemes marks := by
  refine runsOf_append (by simpa using hne) (isChain_word hkey) fun x hx m hm => ?_
  obtain ⟨c, -, rfl⟩ := List.mem_map.mp (List.mem_of_getLast? hx)
  exact sameLexeme_live (.inr (hend m hm))

/-- A live point that is no key character begins lexemes of its own. -/
theorem lexemes_append_point {c : CodePoint} (hc : isKeyPoint c = false) (front marks : List Mark) :
    lexemes (front ++ live c :: marks) = lexemes front ++ lexemes (live c :: marks) := by
  refine runsOf_append_of_apart fun x _ m hm => ?_
  cases hm
  have hkey : isKeyMark (live c) = false := hc
  simp [sameLexeme, Mark.isLive, Region.isLive, hkey]

/-- What begins with a name character and is a lexeme of a text is a word. -/
theorem Shape.eq_word {l : Lexeme} (hs : Shape l) (h : (Lexeme.front? l).any isNameStart) :
    ∃ w : Text, l = w.map live ∧ w.head?.any isNameStart ∧ ∀ c ∈ w, isKeyPoint c := by
  cases hs with
  | @point c hkey =>
    simp [isNameStart_of_isKeyPoint_eq_false hkey] at h
  | word _ hkey => exact ⟨_, rfl, by simpa using h, hkey⟩
  | construct hr => simp [Lexeme.front?_construct hr] at h

/-- Spacing is made of no key characters. -/
theorem isKeyPoint_of_isSpacing {c : CodePoint} (hc : c.isSpacing) : isKeyPoint c = false :=
  isKeyPoint_of_isBlank (CodePoint.isBlank_of_isSpacing hc)

/-- A live colon, spacing and a word that does not go on are lexemes of their own. -/
theorem lexemes_colon_append {gap w : Text} {back : List Mark} (hgap : ∀ c ∈ gap, c.isSpacing)
    (hne : w ≠ []) (hkey : ∀ c ∈ w, isKeyPoint c) (hend : ∀ m ∈ back.head?, isKeyMark m = false)
    (front : List Mark) :
    lexemes (front ++ live (.scalar ':') :: (gap.map live ++ (w.map live ++ back))) =
      (lexemes front ++ [live (.scalar ':')] :: blankLexemes gap) ++
        w.map live :: lexemes back := by
  have hcolon : isKeyPoint (.scalar ':') = false := isKeyPoint_of_isAsciiMark (by decide)
  have hpoints : ∀ c ∈ CodePoint.scalar ':' :: gap, isKeyPoint c = false :=
    List.forall_mem_cons.mpr ⟨hcolon, fun c hc => isKeyPoint_of_isSpacing (hgap c hc)⟩
  rw [lexemes_append_point hcolon, ← List.cons_append, ← List.map_cons,
    lexemes_points_append hpoints, lexemes_word_append hne hkey hend, List.append_assoc]
  rfl

omit [Alphabet] in
/-- The neighbour behind a colon and spacing is the colon. -/
theorem foldl_behind_colon {gap : Text} (hgap : ∀ c ∈ gap, c.isSpacing) (front : List Lexeme)
    (before : Neighbour) :
    (front ++ [live (.scalar ':')] :: blankLexemes gap).foldl behind before CodePoint.isSpacing =
      some (.scalar ':') := by
  have hcolon : Lexeme.isBlank CodePoint.isSpacing [live (.scalar ':')] = false := by decide
  rw [List.foldl_append, List.foldl_cons, foldl_behind_blankLexemes hgap, behind, hcolon]
  rfl

omit [Alphabet] in
/-- The length of lexemes that end in a colon and spacing. -/
theorem length_flatten_colon (front : List Lexeme) (gap : Text) :
    (front ++ [live (.scalar ':')] :: blankLexemes gap).flatten.length =
      front.flatten.length + 1 + gap.length := by
  rw [List.flatten_append, List.flatten_cons, flatten_blankLexemes, List.length_append,
    List.length_append, List.length_map, List.length_singleton, Nat.add_assoc]

/-- What the search finds among the lexemes of a text are its bare values. -/
theorem mem_locatedFrom_scan {t : Text} {n : Nat} {w : Text} :
    (n, w) ∈ locatedFrom 0 noNeighbour (lexemes (scan t)) ↔ IsBareValueAt t n w := by
  have hflatten := flatten_lexemes (scan t)
  have hlexed := lexed_lexemes t
  rw [mem_locatedFrom]
  constructor
  · rintro ⟨front, l, rest, hsplit, hbare, rfl, rfl⟩
    have hshape := hlexed.shape
    rw [hsplit] at hflatten hlexed hshape
    simp only [isBareWord, Bool.and_eq_true, decide_eq_true_eq, Bool.not_eq_true'] at hbare
    obtain ⟨⟨hcolon, hfront⟩, hliteral⟩ := hbare
    obtain ⟨w, rfl, hname, hkey⟩ := (hshape l (by simp)).eq_word hfront
    obtain ⟨front, gap, rfl, hgap⟩ :=
      exists_colon (fun l hl => hshape l (List.mem_append_left _ hl)) hcolon
    obtain ⟨e, hword, -⟩ := hlexed.suffix (by simp)
    have hne : w ≠ [] := by
      rintro rfl
      cases hname
    refine ⟨front.flatten, gap, rest.flatten, ?_, hgap, by simpa using hname, by simpa using hkey,
      hword.head?_of_word hne hkey, hliteral, ?_⟩
    · rw [← hflatten, List.flatten_append, List.flatten_append, List.flatten_cons,
        flatten_blankLexemes]
      simp
    · rw [length_flatten_colon, Nat.zero_add]
  · rintro ⟨front, gap, back, hscan, hgap, hname, hkey, hend, hliteral, rfl⟩
    have hne : w ≠ [] := by
      rintro rfl
      cases hname
    refine ⟨_, _, _, by rw [hscan, lexemes_colon_append hgap hne hkey hend], ?_, ?_, ?_⟩
    · rw [foldl_behind_colon hgap]
      simp [isBareWord, hname, hliteral]
    · rw [length_flatten_colon, flatten_lexemes, Nat.zero_add]
    · simp

/-- The bare values of a text are listed with their offsets by the search. -/
theorem isBareValueList_locatedFrom (t : Text) :
    IsBareValueList t (locatedFrom 0 noNeighbour (lexemes (scan t))) where
  sorted := pairwise_locatedFrom (fun _ hl => ne_nil_of_mem_runsOf hl) 0 noNeighbour
  mem_iff _ _ := mem_locatedFrom_scan

/-- Settings with the switches behind that of the comments set anew. -/
def Settings.switched (s : Settings) (commas keys quotes : Bool) : Settings :=
  { s with removeTrailingCommas := commas, quoteKeys := keys, convertSingleQuotes := quotes }

/-- A repair refuses a text for exactly the bare values that the trimmed text, freed of its
comments if that is asked for, has, in their order, whatever else the settings ask for. A text that
it leaves has none. -/
theorem repair_refuses_bareValues (s : Settings) (t : Text) :
    ∃ found, IsBareValueList (readied s t) found ∧ ∀ commas keys quotes : Bool,
      (found ≠ [] ∧ repair (s.switched commas keys quotes) t =
        .error (.bareValues (found.map Prod.snd))) ∨
      (found = [] ∧ ∃ r, repair (s.switched commas keys quotes) t = .ok r ∧
        ∀ offset w, ¬IsBareValueAt r offset w) := by
  refine ⟨_, isBareValueList_locatedFrom (readied s t), fun commas keys quotes => ?_⟩
  have hreadied : readied (s.switched commas keys quotes) t = readied s t := rfl
  have hwords := map_snd_locatedFrom 0 noNeighbour (lexemes (scan (readied s t)))
  have halike : AlikeBefore noNeighbour noNeighbour := fun _ _ _ _ => Iff.rfl
  have hclean := bareFrom_mendFrom (sound_remedies (s.switched commas keys quotes))
    (lexed_lexemes (readied s t)).shape (.inl halike)
  have hnone : ∀ found : List (Nat × Text), found.map Prod.snd = [] ↔ found = [] := by simp
  rw [repair_eq, hreadied, ← hwords]
  split
  · next h =>
    have hfound := (hnone _).mp h
    refine .inr ⟨hfound, _, rfl, fun offset w hbare => ?_⟩
    have hmem := mem_locatedFrom_scan.mpr hbare
    have hmended : locatedFrom 0 noNeighbour (mended (s.switched commas keys quotes) t) = [] := by
      rw [← hnone, map_snd_locatedFrom, mended, hreadied, hclean, ← hwords, h]
    rw [(lexed_mended _ t).lexemes_scan, hmended] at hmem
    cases hmem
  · next h => exact .inl ⟨fun hfound => h ((hnone _).mpr hfound), rfl⟩

end SourcePress.Repair
