import SourcePress.Proofs.Json.Order

/-!
# The reader reads every strict document

The reader goes along the tokens of a derivation: each phrase is read as what it stands for, and the
text behind it is woven of the tokens that follow. An integer with too many digits, which is no
strict document, is refused at the limit of the reader.
-/

namespace SourcePress.Json

/-- The start of a string is read as a string. -/
theorem readValue_string (bound n : Nat) (t : Text) :
    readValue bound n (.scalar '"' :: t) =
      (readString (.scalar '"' :: t) t).map fun read => (.str read.1, read.2) := by
  cases n <;> rfl

/-- The start of an atom is read as an atom. -/
theorem readValue_atom {c : CodePoint} (hstring : c ≠ .scalar '"') (harray : c ≠ .scalar '[')
    (hobject : c ≠ .scalar '{') (bound n : Nat) (t : Text) :
    readValue bound n (c :: t) = readAtom (c :: t) := by
  cases n <;> simp [readValue, hstring, harray, hobject]

/-- What stands behind the bracket of an array decides how it is read. -/
theorem readValue_bracket (bound n : Nat) (t : Text) :
    readValue bound (n + 1) (.scalar '[' :: t) =
      match skipGap t with
      | .scalar ']' :: rest => .ok (.arr [], rest)
      | t =>
        (readItems (readValue bound n) bound t).map fun read => (.arr read.1, read.2) :=
  rfl

/-- What stands behind the brace of an object decides how it is read. -/
theorem readValue_brace (bound n : Nat) (t : Text) :
    readValue bound (n + 1) (.scalar '{' :: t) =
      match skipGap t with
      | .scalar '}' :: rest => .ok (.obj [], rest)
      | t =>
        (readMembers (readValue bound n) bound t).map fun read =>
          (.obj (ofPairs read.1), read.2) :=
  rfl

/-- Behind its bracket an array without items ends at once. -/
theorem readValue_emptyArray {bound n : Nat} {t t' : Text}
    (h : skipGap t = .scalar ']' :: t') :
    readValue bound (n + 1) (.scalar '[' :: t) = .ok (.arr [], t') := by
  rw [readValue_bracket, h]
  rfl

/-- Behind its bracket an array goes on with its items. -/
theorem readValue_array {bound n : Nat} {t : Text} (h : ∀ t', skipGap t ≠ .scalar ']' :: t') :
    readValue bound (n + 1) (.scalar '[' :: t) =
      (readItems (readValue bound n) bound (skipGap t)).map fun read =>
        (.arr read.1, read.2) := by
  rw [readValue_bracket]
  split
  · next heq => exact absurd heq (h _)
  · rfl

/-- Behind its brace an object without members ends at once. -/
theorem readValue_emptyObject {bound n : Nat} {t t' : Text}
    (h : skipGap t = .scalar '}' :: t') :
    readValue bound (n + 1) (.scalar '{' :: t) = .ok (.obj [], t') := by
  rw [readValue_brace, h]
  rfl

/-- Behind its brace an object goes on with its members. -/
theorem readValue_object {bound n : Nat} {t : Text} (h : ∀ t', skipGap t ≠ .scalar '}' :: t') :
    readValue bound (n + 1) (.scalar '{' :: t) =
      (readMembers (readValue bound n) bound (skipGap t)).map fun read =>
        (.obj (ofPairs read.1), read.2) := by
  rw [readValue_brace]
  split
  · next heq => exact absurd heq (h _)
  · rfl

/-- True of the tokens that can follow a value. -/
def Ends (ts : List Token) : Prop :=
  ∀ tok ∈ ts.head?, tok = .punctuation (.scalar ',') ∨ tok = .punctuation (.scalar ']') ∨
    tok = .punctuation (.scalar '}')

/-- No number goes on into a gap. -/
theorem stops_of_isGap {c : CodePoint} (h : isGap c) :
    isDigit c = false ∧ c ≠ .scalar '.' ∧ isExponentMark c = false := by
  simp only [isGap, Bool.or_eq_true, decide_eq_true_eq] at h
  rcases h with ((rfl | rfl) | rfl) | rfl <;> decide

/-- No number goes on into what follows a value. -/
theorem Woven.stops {ts : List Token} {t : Text} (h : Woven false ts t) (hts : Ends ts) :
    Stops t := by
  intro c hc
  cases h with
  | nil h => exact stops_of_isGap (h.isGap c (List.mem_of_mem_head? hc))
  | @cons gap t tok ts hgap h =>
    cases gap with
    | nil =>
      have hnext : ∀ d, tok = .punctuation d → c = d := by
        rintro d rfl
        exact (Option.some.inj hc).symm
      rcases hts tok rfl with htok | htok | htok <;> rw [hnext _ htok] <;> decide
    | cons d gap =>
      cases hc
      exact stops_of_isGap (hgap.isGap c List.mem_cons_self)

/-- What it is to read a phrase: behind it the text is woven of the tokens that follow. -/
def Reads (n : Nat) (ts : List Token) : Phrase → Prop
  | .value _ v => ∀ bound rest t, ts.length ≤ bound → Woven false (ts ++ rest) t → Ends rest →
      ∃ t', Woven false rest t' ∧ readValue bound n (skipGap t) = .ok (v, t')
  | .items vs => ∀ bound count rest t, ts.length ≤ bound → ts.length ≤ count →
      Woven false (ts ++ .punctuation (.scalar ']') :: rest) t →
      ∃ t', Woven false rest t' ∧ readItems (readValue bound n) count t = .ok (vs, t')
  | .members ms => ∀ bound count rest t, ts.length ≤ bound → ts.length ≤ count →
      Woven false (ts ++ .punctuation (.scalar '}') :: rest) t →
      ∃ t', Woven false rest t' ∧ readMembers (readValue bound n) count t = .ok (ms, t')

/-- Without repairs nothing stands before a closing bracket. -/
theorem Trails.eq_nil {trail : List Token} (h : Trails .none trail) : trail = [] := by
  rcases h with h | ⟨hs, -⟩
  · exact h
  · cases hs

section Phrases

variable [Alphabet]

/-- An atom is read if the reader of atoms reads it before whatever no number goes on into. -/
theorem reads_atom {n : Nat} {nested : Bool} {v : Json} {text : Text}
    (hsound : (Token.atom text).IsSound)
    (hread : ∀ rest, Stops rest → readAtom (text ++ rest) = .ok (v, rest)) :
    Reads n [.atom text] (.value nested v) := by
  intro bound rest t _ h hrest
  obtain ⟨t', h', ht⟩ := h.skipGap_cons hsound
  obtain ⟨c, w, hcw⟩ := List.exists_cons_of_ne_nil hsound.1
  have hc : IsAtomPoint c := hsound.2.1 c (by rw [hcw]; exact List.mem_cons_self)
  have hne : ∀ d, Repair.isAsciiMark d → d ≠ .scalar '-' → d ≠ .scalar '+' →
      d ≠ .scalar '.' → c ≠ d := by
    rintro d hd hminus hplus hpoint rfl
    rcases hc with hkey | rfl | rfl | rfl
    · exact absurd rfl (Repair.ne_of_isKeyPoint hkey hd)
    · exact hminus rfl
    · exact hplus rfl
    · exact hpoint rfl
  have hread' := hread t' (h'.stops hrest)
  refine ⟨t', h', ?_⟩
  rw [ht, Token.text, hcw, List.cons_append, readValue_atom (hne _ (by decide) (by decide)
    (by decide) (by decide)) (hne _ (by decide) (by decide) (by decide) (by decide))
    (hne _ (by decide) (by decide) (by decide) (by decide)), ← List.cons_append, ← hcw,
    hread']

/-- A string literal is read. -/
theorem reads_literal {n : Nat} {nested : Bool} {content : Text} {ps : List Piece}
    (hspells : Spells .double content ps) :
    Reads n [.literal .double content] (.value nested (.str (joined ps))) := by
  intro bound rest t _ h _
  obtain ⟨t', h', ht⟩ := h.skipGap_cons hspells.encloses
  have htext : (Token.literal .double content).text ++ t' =
      .scalar '"' :: (content ++ .scalar '"' :: t') := by
    simp only [Token.text, Lexis.Quote.literal, List.cons_append, List.append_assoc,
      List.nil_append]
    rfl
  refine ⟨t', h', ?_⟩
  rw [ht, htext, readValue_string, readString_spells hspells]
  rfl

/-- Items are read up to the bracket behind them. -/
theorem reads_item {n : Nat} {v : Json} {ts : List Token} (h : Reads n ts (.value true v))
    (hts : 0 < ts.length) : Reads n ts (.items [v]) := by
  intro bound count rest t hbound hcount hwoven
  obtain ⟨count, rfl⟩ := Nat.exists_eq_add_of_le' (Nat.lt_of_lt_of_le hts hcount)
  obtain ⟨t1, h1, hread⟩ := h bound _ t hbound hwoven (by simp [Ends])
  obtain ⟨t2, h2, ht2⟩ := h1.skipGap_punctuation (by decide)
  refine ⟨t2, h2, ?_⟩
  rw [readItems, hread]
  simp only [bind, Except.bind, ht2]
  rfl

/-- An item is read before others. -/
theorem reads_consItem {n : Nat} {v : Json} {vs : List Json} {ts ts' : List Token}
    (h : Reads n ts (.value true v)) (h' : Reads n ts' (.items vs)) :
    Reads n (ts ++ .punctuation (.scalar ',') :: ts') (.items (v :: vs)) := by
  intro bound count rest t hbound hcount hwoven
  simp only [List.length_append, List.length_cons] at hbound hcount
  obtain ⟨count, rfl⟩ := Nat.exists_eq_add_of_le' (show 1 ≤ count by omega)
  rw [List.append_assoc] at hwoven
  obtain ⟨t1, h1, hread⟩ := h bound _ t (by omega) hwoven (by simp [Ends])
  obtain ⟨t2, h2, ht2⟩ := h1.skipGap_punctuation (by decide)
  obtain ⟨t3, h3, hread'⟩ := h' bound count rest t2 (by omega) (by omega) h2
  refine ⟨t3, h3, ?_⟩
  rw [readItems, hread]
  simp only [bind, Except.bind, ht2, hread']
  rfl

/-- A key is read with the colon behind it. -/
theorem reads_key {content : Text} {ps : List Piece} (hspells : Spells .double content ps)
    {ts : List Token} {t : Text}
    (h : Woven false (.literal .double content :: .punctuation (.scalar ':') :: ts) t) :
    ∃ t1 t2 t3, skipGap t = .scalar '"' :: t1 ∧
      readString (.scalar '"' :: t1) t1 = .ok (joined ps, t2) ∧
      skipGap t2 = .scalar ':' :: t3 ∧ Woven false ts t3 := by
  obtain ⟨t2, h2, ht⟩ := h.skipGap_cons hspells.encloses
  obtain ⟨t3, h3, ht2⟩ := h2.skipGap_punctuation (by decide)
  refine ⟨content ++ .scalar '"' :: t2, t2, t3, ?_, readString_spells hspells _ _, ht2, h3⟩
  rw [ht]
  simp only [Token.text, Lexis.Quote.literal, List.cons_append, List.append_assoc,
    List.nil_append]
  rfl

/-- Members are read up to the brace behind them. -/
theorem reads_member {n : Nat} {content : Text} {ps : List Piece} {v : Json} {ts : List Token}
    (hspells : Spells .double content ps) (h : Reads n ts (.value true v)) :
    Reads n (.literal .double content :: .punctuation (.scalar ':') :: ts)
      (.members [(joined ps, v)]) := by
  intro bound count rest t hbound hcount hwoven
  simp only [List.length_cons] at hbound hcount
  obtain ⟨count, rfl⟩ := Nat.exists_eq_add_of_le' (show 1 ≤ count by omega)
  obtain ⟨t1, t2, t3, ht, hkey, ht2, h3⟩ := reads_key hspells hwoven
  obtain ⟨t4, h4, hread⟩ := h bound _ t3 (by omega) h3 (by simp [Ends])
  obtain ⟨t5, h5, ht4⟩ := h4.skipGap_punctuation (by decide)
  refine ⟨t5, h5, ?_⟩
  rw [readMembers, ht]
  simp only [bind, Except.bind, hkey, ht2, hread, ht4]
  rfl

/-- A member is read before others. -/
theorem reads_consMember {n : Nat} {content : Text} {ps : List Piece} {v : Json}
    {ms : List (Text × Json)} {ts ts' : List Token} (hspells : Spells .double content ps)
    (h : Reads n ts (.value true v)) (h' : Reads n ts' (.members ms)) :
    Reads n (.literal .double content :: .punctuation (.scalar ':') ::
      (ts ++ .punctuation (.scalar ',') :: ts')) (.members ((joined ps, v) :: ms)) := by
  intro bound count rest t hbound hcount hwoven
  simp only [List.length_append, List.length_cons] at hbound hcount
  obtain ⟨count, rfl⟩ := Nat.exists_eq_add_of_le' (show 1 ≤ count by omega)
  rw [List.cons_append, List.cons_append, List.append_assoc] at hwoven
  obtain ⟨t1, t2, t3, ht, hkey, ht2, h3⟩ := reads_key hspells hwoven
  obtain ⟨t4, h4, hread⟩ := h bound _ t3 (by omega) h3 (by simp [Ends])
  obtain ⟨t5, h5, ht4⟩ := h4.skipGap_punctuation (by decide)
  obtain ⟨t6, h6, hread'⟩ := h' bound count rest t5 (by omega) (by omega) h5
  refine ⟨t6, h6, ?_⟩
  rw [readMembers, ht]
  simp only [bind, Except.bind, hkey, ht2, hread, ht4, hread']
  rfl

/-- Behind the gap in front of a phrase the phrase goes on, and no closing bracket stands there. -/
theorem Derives.skipGap_woven {s : Repair.Settings} {n : Nat} {φ : Phrase} {ts us : List Token}
    {t : Text} (h : Derives s n φ ts) (hwoven : Woven false (ts ++ us) t) :
    Woven false (ts ++ us) (skipGap t) ∧
      ∀ c, c = .scalar ']' ∨ c = .scalar '}' → ∀ t', skipGap t ≠ c :: t' := by
  obtain ⟨tok, ts, rfl, hbegins⟩ := h.begins
  have hsound := h.isSound tok List.mem_cons_self
  refine ⟨hwoven.skipGap hsound, fun c hc t' => ?_⟩
  obtain ⟨t'', -, ht⟩ := hwoven.skipGap_cons hsound
  rw [ht]
  exact hbegins.ne_closing hsound hc t'' t'

/-- Behind an opening bracket the phrase between the brackets goes on, and no closing one stands
there. -/
theorem Derives.skipGap_enclosed {s : Repair.Settings} {n : Nat} {φ : Phrase} {ts us : List Token}
    {c c' : CodePoint} {t : Text} (h : Derives s n φ ts) (hc : IsPunctuation c)
    (hwoven : Woven false (.punctuation c :: (ts ++ [.punctuation c']) ++ us) t) :
    ∃ t', skipGap t = c :: t' ∧ Woven false (ts ++ .punctuation c' :: us) (skipGap t') ∧
      ∀ d, d = .scalar ']' ∨ d = .scalar '}' → ∀ rest, skipGap t' ≠ d :: rest := by
  simp only [List.cons_append, List.append_assoc, List.nil_append] at hwoven
  obtain ⟨t', hrest, ht⟩ := hwoven.skipGap_punctuation hc
  exact ⟨t', ht, h.skipGap_woven hrest⟩

/-- An array is read if its items are. -/
theorem reads_array {n : Nat} {nested : Bool} {vs : List Json} {ts : List Token}
    (hderives : Derives .none n (.items vs) ts) (h : Reads n ts (.items vs)) :
    Reads (n + 1) (.punctuation (.scalar '[') :: (ts ++ [.punctuation (.scalar ']')]))
      (.value nested (.arr vs)) := by
  intro bound rest t hbound hwoven _
  simp only [List.length_cons, List.length_append] at hbound
  obtain ⟨t1, ht, hskip, hne⟩ := hderives.skipGap_enclosed (by decide) hwoven
  obtain ⟨t2, h2, hread⟩ := h bound bound rest (skipGap t1) (by omega) (by omega) hskip
  refine ⟨t2, h2, ?_⟩
  rw [ht, readValue_array (hne _ (.inl rfl)), hread]
  rfl

/-- An object is read if its members are. -/
theorem reads_object {n : Nat} {nested : Bool} {ms : List (Text × Json)} {ts : List Token}
    (hderives : Derives .none n (.members ms) ts) (h : Reads n ts (.members ms)) :
    Reads (n + 1) (.punctuation (.scalar '{') :: (ts ++ [.punctuation (.scalar '}')]))
      (.value nested (.obj (ofPairs ms))) := by
  intro bound rest t hbound hwoven _
  simp only [List.length_cons, List.length_append] at hbound
  obtain ⟨t1, ht, hskip, hne⟩ := hderives.skipGap_enclosed (by decide) hwoven
  obtain ⟨t2, h2, hread⟩ := h bound bound rest (skipGap t1) (by omega) (by omega) hskip
  refine ⟨t2, h2, ?_⟩
  rw [ht, readValue_object (hne _ (.inr rfl)), hread]
  rfl

/-- Every phrase of strict JSON is read as what it stands for. -/
theorem Derives.reads {n : Nat} {φ : Phrase} {ts : List Token} (h : Derives .none n φ ts) :
    Reads n ts φ := by
  induction h with
  | null =>
    have hsound := (@Derives.null _ .none 0 true).isSound _ List.mem_cons_self
    exact reads_atom hsound fun rest _ => readAtom_null rest
  | bool b =>
    have hsound := (@Derives.bool _ .none 0 true b).isSound _ List.mem_cons_self
    exact reads_atom hsound fun rest _ => readAtom_bool b rest
  | number ht hv =>
    have hsound := (@Derives.number _ .none 0 true _ _ _ ht hv).isSound _ List.mem_cons_self
    exact reads_atom hsound fun rest => readAtom_number ht hv
  | string h => exact reads_literal h
  | singleString hs => cases hs
  | emptyArray =>
    intro bound rest t _ hwoven _
    obtain ⟨t1, h1, ht⟩ := hwoven.skipGap_punctuation (by decide)
    obtain ⟨t2, h2, ht1⟩ := h1.skipGap_punctuation (by decide)
    refine ⟨t2, h2, ?_⟩
    rw [ht]
    exact readValue_emptyArray ht1
  | array h htrail ih =>
    rw [htrail.eq_nil]
    exact reads_array h ih
  | emptyObject =>
    intro bound rest t _ hwoven _
    obtain ⟨t1, h1, ht⟩ := hwoven.skipGap_punctuation (by decide)
    obtain ⟨t2, h2, ht1⟩ := h1.skipGap_punctuation (by decide)
    refine ⟨t2, h2, ?_⟩
    rw [ht]
    exact readValue_emptyObject ht1
  | object h htrail ih =>
    rw [htrail.eq_nil]
    exact reads_object h ih
  | item h ih =>
    obtain ⟨tok, ts', rfl, -⟩ := h.begins
    exact reads_item ih (Nat.succ_pos _)
  | consItem h h' ih ih' => exact reads_consItem ih ih'
  | member hk h ih =>
    obtain ⟨content, ps, hspells, rfl, rfl⟩ := hk.exists_literal
    exact reads_member hspells ih
  | consMember hk h h' ih ih' =>
    obtain ⟨content, ps, hspells, rfl, rfl⟩ := hk.exists_literal
    exact reads_consMember hspells ih ih'

end Phrases

variable [Platform]

/-- A strict document is read as its value. -/
theorem Document.read {v : Json} {t : Text} (h : Document .none v t) : Json.read t = .ok v := by
  obtain ⟨ts, hderives, hwoven⟩ := h
  obtain ⟨tok, ts', rfl, -⟩ := hderives.begins
  have hsound := hderives.isSound
  have hread := hderives.reads t.length [] t (hwoven.length_le hsound)
    (by rw [List.append_nil]; exact hwoven) (by simp [Ends])
  obtain ⟨t', h', hvalue⟩ := hread
  unfold Json.read
  split
  · next heq => exact absurd rfl (hwoven.ne_byteOrderMark (hsound tok List.mem_cons_self) _)
  · simp only [bind, Except.bind, hvalue, h'.skipGap_nil]
    rfl

/-- An integer with more digits than the limit allows is refused at the limit. -/
theorem read_overlong {digits : Text} (h : IsWhole digits)
    (hlong : maxIntegerDigits < digits.length) :
    Json.read digits = .error (.integerTooLong digits.length) := by
  have hspells : SpellsNumeral ⟨false, digits, [], none⟩ digits :=
    ⟨[], [], h, .inl ⟨rfl, rfl⟩, .inl ⟨rfl, rfl⟩, by simp⟩
  have hvalue : (⟨false, digits, [], none⟩ : Numeral).value digits [] =
      .error (.integerTooLong digits.length) := by
    simp [Numeral.value, Numeral.isInteger, hlong]
  have hatom : readAtom (digits ++ []) = .error (.integerTooLong digits.length) := by
    rw [readAtom_spells hspells (by simp [Stops]), List.append_nil, hvalue]
    rfl
  rw [List.append_nil] at hatom
  obtain ⟨hne, hdigits⟩ := h.areDigits
  obtain ⟨c, rest, rfl⟩ := List.exists_cons_of_ne_nil hne
  have hc : isDigit c := hdigits c List.mem_cons_self
  have hother : ∀ d : CodePoint, isDigit d = false → c ≠ d := fun d => ne_of_isDigit hc
  have hgap : isGap c = false := by
    simp [isGap, hother (.scalar ' ') (by decide), hother (.scalar '\t') (by decide),
      hother (.scalar '\n') (by decide), hother (.scalar '\r') (by decide)]
  have hskip : skipGap (c :: rest) = c :: rest := List.dropWhile_cons_of_neg (by simp [hgap])
  unfold Json.read
  split
  · next heq => exact absurd (List.cons.inj heq).1 (hother _ (by decide))
  · rw [hskip, readValue_atom (hother _ (by decide)) (hother _ (by decide))
      (hother _ (by decide)), hatom]
    rfl

end SourcePress.Json
