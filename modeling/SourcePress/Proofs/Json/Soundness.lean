import SourcePress.Proofs.Json.Completeness

/-!
# What the reader reads is a strict document

Whatever the reader takes for a value is derived from tokens of strict JSON, and these tokens are
woven into the text in front of what the reader leaves.
-/

namespace SourcePress.Json

/-- Items are read as one, with a bracket behind it or a comma and others. -/
theorem readItems_eq_ok {count : Nat} {value : Text → Except Fault (Json × Text)} {t rest : Text}
    {vs : List Json} (h : readItems value (count + 1) t = .ok (vs, rest)) :
    ∃ item t1, value (skipGap t) = .ok (item, t1) ∧
      (skipGap t1 = .scalar ']' :: rest ∧ vs = [item] ∨
        ∃ t2 items, skipGap t1 = .scalar ',' :: t2 ∧
          readItems value count t2 = .ok (items, rest) ∧ vs = item :: items) := by
  rw [readItems] at h
  obtain ⟨⟨item, t1⟩, hitem, h⟩ := exists_of_bind_eq_ok h
  refine ⟨item, t1, hitem, ?_⟩
  dsimp only at h
  split at h
  · next t2 ht1 =>
    cases h
    exact .inl ⟨ht1, rfl⟩
  · next t2 ht1 =>
    obtain ⟨⟨items, t3⟩, hitems, h⟩ := exists_of_bind_eq_ok h
    cases h
    exact .inr ⟨t2, items, ht1, hitems, rfl⟩
  · cases h

/-- Members are read as one, with a brace behind it or a comma and others. -/
theorem readMembers_eq_ok {count : Nat} {value : Text → Except Fault (Json × Text)}
    {t rest : Text} {ms : List (Text × Json)}
    (h : readMembers value (count + 1) t = .ok (ms, rest)) :
    ∃ t1 key t2 t3 item t4, skipGap t = .scalar '"' :: t1 ∧
      readString (.scalar '"' :: t1) t1 = .ok (key, t2) ∧ skipGap t2 = .scalar ':' :: t3 ∧
      value (skipGap t3) = .ok (item, t4) ∧
      (skipGap t4 = .scalar '}' :: rest ∧ ms = [(key, item)] ∨
        ∃ t5 members, skipGap t4 = .scalar ',' :: t5 ∧
          readMembers value count t5 = .ok (members, rest) ∧ ms = (key, item) :: members) := by
  rw [readMembers] at h
  split at h
  · next t1 ht =>
    obtain ⟨⟨key, t2⟩, hkey, h⟩ := exists_of_bind_eq_ok h
    dsimp only at h
    split at h
    · next t3 ht2 =>
      obtain ⟨⟨item, t4⟩, hitem, h⟩ := exists_of_bind_eq_ok h
      refine ⟨t1, key, t2, t3, item, t4, ht, hkey, ht2, hitem, ?_⟩
      dsimp only at h
      split at h
      · next t5 ht4 =>
        cases h
        exact .inl ⟨ht4, rfl⟩
      · next t5 ht4 =>
        obtain ⟨⟨members, t6⟩, hmembers, h⟩ := exists_of_bind_eq_ok h
        cases h
        exact .inr ⟨t5, members, ht4, hmembers, rfl⟩
      · cases h
    · cases h
  · cases h

/-- A value begins as a string, as an array or as an object, or it is read as an atom. -/
theorem readValue_cases (t : Text) :
    (∃ t', t = .scalar '"' :: t') ∨ (∃ t', t = .scalar '[' :: t') ∨
      (∃ t', t = .scalar '{' :: t') ∨ ∀ bound n, readValue bound n t = readAtom t := by
  cases t with
  | nil => exact .inr (.inr (.inr fun _ n => by cases n <;> rfl))
  | cons c t =>
    by_cases hstring : c = .scalar '"'
    · exact .inl ⟨t, by rw [hstring]⟩
    · by_cases harray : c = .scalar '['
      · exact .inr (.inl ⟨t, by rw [harray]⟩)
      · by_cases hobject : c = .scalar '{'
        · exact .inr (.inr (.inl ⟨t, by rw [hobject]⟩))
        · exact .inr (.inr (.inr fun bound n => readValue_atom hstring harray hobject bound n t))

section Phrases

variable [Alphabet]

/-- True of readers that take strict JSON in front of a text for its value. -/
def IsStrict (n : Nat) (nested : Bool) (value : Text → Except Fault (Json × Text)) : Prop :=
  ∀ {t rest : Text} {v : Json}, value t = .ok (v, rest) →
    ∃ ts, Derives .none n (.value nested v) ts ∧ Weaves ts t rest

/-- What is read as items is a sequence of items with a bracket behind it. -/
theorem derives_of_readItems {n count : Nat} {value : Text → Except Fault (Json × Text)}
    (hvalue : IsStrict n true value) {t rest : Text} {vs : List Json}
    (h : readItems value count t = .ok (vs, rest)) :
    ∃ ts, Derives .none n (.items vs) ts ∧
      Weaves (ts ++ [.punctuation (.scalar ']')]) t rest := by
  induction count generalizing t vs with
  | zero => cases h
  | succ count ih =>
    obtain ⟨item, t1, hitem, hbehind⟩ := readItems_eq_ok h
    obtain ⟨ts, hderives, hweaves⟩ := hvalue hitem
    rcases hbehind with ⟨ht1, rfl⟩ | ⟨t2, items, ht1, hitems, rfl⟩
    · exact ⟨ts, .item hderives, hweaves.of_skipGap.append (weaves_of_skipGap_eq ht1)⟩
    · obtain ⟨ts', hderives', hweaves'⟩ := ih hitems
      refine ⟨_, .consItem hderives hderives', ?_⟩
      rw [List.append_assoc]
      exact hweaves.of_skipGap.append ((weaves_of_skipGap_eq ht1).append hweaves')

/-- What is read as members is a sequence of members with a brace behind it. -/
theorem derives_of_readMembers {n count : Nat} {value : Text → Except Fault (Json × Text)}
    (hvalue : IsStrict n true value) {t rest : Text} {ms : List (Text × Json)}
    (h : readMembers value count t = .ok (ms, rest)) :
    ∃ ts, Derives .none n (.members ms) ts ∧
      Weaves (ts ++ [.punctuation (.scalar '}')]) t rest := by
  induction count generalizing t ms with
  | zero => cases h
  | succ count ih =>
    obtain ⟨t1, key, t2, t3, item, t4, ht, hkey, ht2, hitem, hbehind⟩ := readMembers_eq_ok h
    obtain ⟨content, ps, rfl, hspells, rfl⟩ := spells_of_readString hkey
    obtain ⟨ts, hderives, hweaves⟩ := hvalue hitem
    have hfront : Weaves (.literal .double content :: .punctuation (.scalar ':') :: ts) t t4 := by
      refine .of_skipGap ?_
      rw [ht]
      exact (weaves_literal content t2).append
        ((weaves_of_skipGap_eq ht2).append hweaves.of_skipGap)
    rcases hbehind with ⟨ht4, rfl⟩ | ⟨t5, members, ht4, hmembers, rfl⟩
    · exact ⟨_, .member (.double hspells) hderives, hfront.append (weaves_of_skipGap_eq ht4)⟩
    · obtain ⟨ts', hderives', hweaves'⟩ := ih hmembers
      refine ⟨_, .consMember (.double hspells) hderives hderives', ?_⟩
      have hall := hfront.append ((weaves_of_skipGap_eq ht4).append hweaves')
      simp only [List.append_assoc, List.cons_append, List.nil_append] at hall ⊢
      exact hall

/-- What is read as an atom is one. -/
theorem weaves_of_readAtom {n : Nat} {nested : Bool} {t rest : Text} {v : Json}
    (h : readAtom t = .ok (v, rest)) :
    ∃ ts, Derives .none n (.value nested v) ts ∧ Weaves ts t rest := by
  obtain ⟨text, rfl, hderives⟩ := derives_of_readAtom h .none n nested
  exact ⟨_, hderives, weaves_token (.atom text) rest⟩

/-- What is read as a string is one. -/
theorem weaves_of_string {bound n : Nat} {nested : Bool} {t rest : Text} {v : Json}
    (h : readValue bound n (.scalar '"' :: t) = .ok (v, rest)) :
    ∃ ts, Derives .none n (.value nested v) ts ∧ Weaves ts (.scalar '"' :: t) rest := by
  rw [readValue_string] at h
  obtain ⟨⟨text, behind⟩, hread, hv⟩ := exists_of_map_eq_ok h
  cases hv
  obtain ⟨content, ps, rfl, hspells, rfl⟩ := spells_of_readString hread
  exact ⟨_, .string hspells, weaves_literal content _⟩

/-- What is read as an array is one, if its items are. -/
theorem weaves_of_array {bound n : Nat} {nested : Bool}
    (hvalue : IsStrict n true (readValue bound n)) {t rest : Text} {v : Json}
    (h : readValue bound (n + 1) (.scalar '[' :: t) = .ok (v, rest)) :
    ∃ ts, Derives .none (n + 1) (.value nested v) ts ∧
      Weaves ts (.scalar '[' :: t) rest := by
  have hopen := weaves_punctuation (.scalar '[') t
  by_cases hempty : ∃ t', skipGap t = .scalar ']' :: t'
  · obtain ⟨t', ht⟩ := hempty
    rw [readValue_emptyArray ht] at h
    cases h
    exact ⟨_, .emptyArray, hopen.append (weaves_of_skipGap_eq ht)⟩
  · rw [readValue_array (not_exists.mp hempty)] at h
    obtain ⟨⟨items, behind⟩, hitems, hv⟩ := exists_of_map_eq_ok h
    cases hv
    obtain ⟨ts, hderives, hweaves⟩ := derives_of_readItems hvalue hitems
    exact ⟨_, .array hderives (.inl rfl), hopen.append hweaves.of_skipGap⟩

/-- What is read as an object is one, if its items are. -/
theorem weaves_of_object {bound n : Nat} {nested : Bool}
    (hvalue : IsStrict n true (readValue bound n)) {t rest : Text} {v : Json}
    (h : readValue bound (n + 1) (.scalar '{' :: t) = .ok (v, rest)) :
    ∃ ts, Derives .none (n + 1) (.value nested v) ts ∧
      Weaves ts (.scalar '{' :: t) rest := by
  have hopen := weaves_punctuation (.scalar '{') t
  by_cases hempty : ∃ t', skipGap t = .scalar '}' :: t'
  · obtain ⟨t', ht⟩ := hempty
    rw [readValue_emptyObject ht] at h
    cases h
    exact ⟨_, .emptyObject, hopen.append (weaves_of_skipGap_eq ht)⟩
  · rw [readValue_object (not_exists.mp hempty)] at h
    obtain ⟨⟨members, behind⟩, hmembers, hv⟩ := exists_of_map_eq_ok h
    cases hv
    obtain ⟨ts, hderives, hweaves⟩ := derives_of_readMembers hvalue hmembers
    exact ⟨_, .object hderives (.inl rfl), hopen.append hweaves.of_skipGap⟩

/-- What is read as a value is one. -/
theorem isStrict_readValue (bound n : Nat) (nested : Bool) :
    IsStrict n nested (readValue bound n) := by
  induction n generalizing nested with
  | zero =>
    intro t rest v h
    rcases readValue_cases t with ⟨t, rfl⟩ | ⟨t, rfl⟩ | ⟨t, rfl⟩ | hatom
    · exact weaves_of_string h
    · cases h
    · cases h
    · rw [hatom] at h
      exact weaves_of_readAtom h
  | succ n ih =>
    intro t rest v h
    rcases readValue_cases t with ⟨t, rfl⟩ | ⟨t, rfl⟩ | ⟨t, rfl⟩ | hatom
    · exact weaves_of_string h
    · exact weaves_of_array (ih true) h
    · exact weaves_of_object (ih true) h
    · rw [hatom] at h
      exact weaves_of_readAtom h

end Phrases

/-- A text is read as a value if it is a strict document of this value. -/
theorem document_of_read [Platform] {v : Json} {t : Text} (h : Json.read t = .ok v) :
    Document .none v t := by
  unfold Json.read at h
  split at h
  · cases h
  · obtain ⟨⟨value, rest⟩, hvalue, h⟩ := exists_of_bind_eq_ok h
    dsimp only at h
    split at h
    · next hrest =>
      cases h
      obtain ⟨ts, hderives, hweaves⟩ := isStrict_readValue _ _ false hvalue
      have hend : Woven false [] rest :=
        .nil (.inl (gap_of_isGap (List.dropWhile_eq_nil_iff.mp hrest)))
      have hwoven := hweaves.of_skipGap [] hend
      rw [List.append_nil] at hwoven
      exact ⟨ts, hderives, hwoven⟩
    · cases h

end SourcePress.Json
