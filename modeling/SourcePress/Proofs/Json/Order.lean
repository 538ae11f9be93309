import SourcePress.Proofs.Json.Tokens

/-!
# The order of tokens

Numbers and words stand before marks of punctuation only, a number or a word of JSON before no
colon, and no bare key behind one. So neighbouring tokens never run together, and what a token is
can be told from its neighbours.
-/

namespace SourcePress.Json

open Lexis

/-- True of the tokens that a phrase can begin with: a bare key begins members only. -/
def Token.Begins : Phrase → Token → Prop
  | _, punctuation c => c = .scalar '[' ∨ c = .scalar '{'
  | .members _, key _ => True
  | _, key _ => False
  | _, _ => True

/-- True of the tokens that a phrase can finish with. -/
def Token.Finishes : Token → Prop
  | punctuation c => c = .scalar ']' ∨ c = .scalar '}'
  | key _ => False
  | _ => True

/-- True of tokens that can stand side by side. -/
def Token.Adjoins : Token → Token → Prop
  | atom _, punctuation c => c ≠ .scalar ':'
  | atom _, _ => False
  | key _, punctuation _ => True
  | key _, _ => False
  | punctuation c, key _ => c ≠ .scalar ':'
  | _, _ => True

/-- A name begins members. -/
theorem Names.begins [Alphabet] {s : Repair.Settings} {tok : Token} {k : Text} (h : Names s tok k)
    (ms : List (Text × Json)) : tok.Begins (.members ms) := by
  cases h <;> exact trivial

/-- A phrase has a first token, which it can begin with. -/
theorem Derives.begins [Alphabet] {s : Repair.Settings} {n : Nat} {φ : Phrase} {ts : List Token}
    (h : Derives s n φ ts) : ∃ tok ts', ts = tok :: ts' ∧ tok.Begins φ := by
  induction h with
  | null => exact ⟨_, _, rfl, trivial⟩
  | bool => exact ⟨_, _, rfl, trivial⟩
  | number => exact ⟨_, _, rfl, trivial⟩
  | string => exact ⟨_, _, rfl, trivial⟩
  | singleString => exact ⟨_, _, rfl, trivial⟩
  | emptyArray => exact ⟨_, _, rfl, .inl rfl⟩
  | array => exact ⟨_, _, rfl, .inl rfl⟩
  | emptyObject => exact ⟨_, _, rfl, .inr rfl⟩
  | object => exact ⟨_, _, rfl, .inr rfl⟩
  | item h ih =>
    obtain ⟨tok, ts', rfl, hbegins⟩ := ih
    exact ⟨tok, ts', rfl, by cases tok <;> exact hbegins⟩
  | consItem h h' ih =>
    obtain ⟨tok, ts', rfl, hbegins⟩ := ih
    exact ⟨tok, _, rfl, by cases tok <;> exact hbegins⟩
  | member hk => exact ⟨_, _, rfl, hk.begins _⟩
  | consMember hk => exact ⟨_, _, rfl, hk.begins _⟩

/-- Tokens finish as the last of them do. -/
theorem finishes_append {tok : Token} {ts ts' : List Token} (hne : ts' ≠ [])
    (h : ∀ tok ∈ ts'.getLast?, tok.Finishes) :
    ∀ tok' ∈ (ts ++ tok :: ts').getLast?, tok'.Finishes := by
  intro tok' htok'
  rw [List.getLast?_append_of_ne_nil _ (List.cons_ne_nil tok ts'),
    List.getLast?_cons_of_ne_nil hne] at htok'
  exact h tok' htok'

/-- Tokens before a closing bracket finish with it. -/
theorem finishes_concat {c : CodePoint} (hc : c = .scalar ']' ∨ c = .scalar '}')
    (ts : List Token) : ∀ tok ∈ (ts ++ [Token.punctuation c]).getLast?, tok.Finishes := by
  intro tok htok
  rw [List.getLast?_concat] at htok
  cases htok
  exact hc

/-- A phrase finishes with a token that it can finish with. -/
theorem Derives.finishes [Alphabet] {s : Repair.Settings} {n : Nat} {φ : Phrase} {ts : List Token}
    (h : Derives s n φ ts) : ∀ tok ∈ ts.getLast?, tok.Finishes := by
  induction h with
  | null => exact fun _ h => by cases h; exact trivial
  | bool => exact fun _ h => by cases h; exact trivial
  | number => exact fun _ h => by cases h; exact trivial
  | string => exact fun _ h => by cases h; exact trivial
  | singleString => exact fun _ h => by cases h; exact trivial
  | emptyArray => exact fun _ h => by cases h; exact .inl rfl
  | array h htrail =>
    rw [← List.append_assoc, ← List.cons_append]
    exact finishes_concat (.inl rfl) _
  | emptyObject => exact fun _ h => by cases h; exact .inr rfl
  | object h htrail =>
    rw [← List.append_assoc, ← List.cons_append]
    exact finishes_concat (.inr rfl) _
  | item h ih => exact ih
  | consItem h h' ih ih' =>
    obtain ⟨tok, ts', rfl, -⟩ := h'.begins
    exact finishes_append (List.cons_ne_nil tok ts') ih'
  | @member _ _ _ tok ts hk h ih =>
    obtain ⟨tok', ts', rfl, -⟩ := h.begins
    exact @finishes_append _ [tok] _ (List.cons_ne_nil tok' ts') ih
  | @consMember _ _ _ _ tok ts ts' hk h h' ih ih' =>
    obtain ⟨tok', ts', rfl, -⟩ := h'.begins
    rw [← List.cons_append, ← List.cons_append]
    exact finishes_append (List.cons_ne_nil tok' ts') ih'

/-- Anything can follow a mark of punctuation other than a colon. -/
theorem Token.adjoins_of_ne {c : CodePoint} (hc : c ≠ .scalar ':') (tok : Token) :
    (punctuation c).Adjoins tok := by
  cases tok with
  | key => exact hc
  | _ => exact trivial

/-- A phrase can be followed by a mark of punctuation other than a colon. -/
theorem Token.Finishes.adjoins {tok : Token} (h : tok.Finishes) {c : CodePoint}
    (hc : c ≠ .scalar ':') : tok.Adjoins (.punctuation c) := by
  cases tok with
  | punctuation => exact trivial
  | literal => exact trivial
  | key => exact h.elim
  | atom => exact hc

/-- A name is followed by a colon. -/
theorem Names.adjoins [Alphabet] {s : Repair.Settings} {tok : Token} {k : Text} (h : Names s tok k)
    (c : CodePoint) : tok.Adjoins (.punctuation c) := by
  cases h <;> exact trivial

/-- A value can follow a colon. -/
theorem Derives.adjoins_colon [Alphabet] {s : Repair.Settings} {n : Nat} {nested : Bool} {v : Json}
    {ts : List Token} (h : Derives s n (.value nested v) ts) :
    ∀ tok ∈ ts.head?, (Token.punctuation (.scalar ':')).Adjoins tok := by
  obtain ⟨tok, ts', rfl, hbegins⟩ := h.begins
  intro tok' htok'
  cases htok'
  cases tok with
  | key => exact hbegins.elim
  | _ => exact trivial

/-- A comma can stand between two phrases. -/
theorem isChain_comma {ts ts' : List Token} (h : ts.IsChain Token.Adjoins)
    (h' : ts'.IsChain Token.Adjoins) (hlast : ∀ tok ∈ ts.getLast?, tok.Finishes) :
    (ts ++ .punctuation (.scalar ',') :: ts').IsChain Token.Adjoins := by
  refine List.isChain_append.mpr ⟨h, List.isChain_cons.mpr
    ⟨fun tok _ => Token.adjoins_of_ne (by decide) tok, h'⟩, fun tok htok tok' htok' => ?_⟩
  cases htok'
  exact (hlast tok htok).adjoins (by decide)

/-- A phrase can stand between brackets, with or without a comma behind it. -/
theorem isChain_container {s : Repair.Settings} {ts trail : List Token} {c c' : CodePoint}
    (hc : c ≠ .scalar ':') (hc' : c' ≠ .scalar ':') (h : ts.IsChain Token.Adjoins)
    (hlast : ∀ tok ∈ ts.getLast?, tok.Finishes) (htrail : Trails s trail) :
    (.punctuation c :: (ts ++ (trail ++ [.punctuation c']))).IsChain Token.Adjoins := by
  refine List.isChain_cons.mpr ⟨fun tok _ => Token.adjoins_of_ne hc tok, ?_⟩
  rcases htrail with rfl | ⟨-, rfl⟩
  · refine List.isChain_append.mpr ⟨h, List.isChain_singleton _, fun tok htok tok' htok' => ?_⟩
    cases htok'
    exact (hlast tok htok).adjoins hc'
  · exact isChain_comma h (List.isChain_singleton _) hlast

/-- A name and a colon can stand before what can follow a colon. -/
theorem isChain_name [Alphabet] {s : Repair.Settings} {tok : Token} {k : Text} {ts : List Token}
    (hk : Names s tok k) (h : ts.IsChain Token.Adjoins)
    (hhead : ∀ tok ∈ ts.head?, (Token.punctuation (.scalar ':')).Adjoins tok) :
    (tok :: .punctuation (.scalar ':') :: ts).IsChain Token.Adjoins :=
  List.isChain_cons_cons.mpr ⟨hk.adjoins _, List.isChain_cons.mpr ⟨hhead, h⟩⟩

/-- The tokens of a phrase can stand side by side. -/
theorem Derives.isChain [Alphabet] {s : Repair.Settings} {n : Nat} {φ : Phrase} {ts : List Token}
    (h : Derives s n φ ts) : ts.IsChain Token.Adjoins := by
  induction h with
  | null => exact List.isChain_singleton _
  | bool => exact List.isChain_singleton _
  | number => exact List.isChain_singleton _
  | string => exact List.isChain_singleton _
  | singleString => exact List.isChain_singleton _
  | emptyArray => exact List.isChain_cons_cons.mpr ⟨trivial, List.isChain_singleton _⟩
  | array h htrail ih => exact isChain_container (by decide) (by decide) ih h.finishes htrail
  | emptyObject => exact List.isChain_cons_cons.mpr ⟨trivial, List.isChain_singleton _⟩
  | object h htrail ih => exact isChain_container (by decide) (by decide) ih h.finishes htrail
  | item h ih => exact ih
  | consItem h h' ih ih' => exact isChain_comma ih ih' h.finishes
  | member hk h ih => exact isChain_name hk ih h.adjoins_colon
  | @consMember _ _ _ _ tok ts ts' hk h h' ih ih' =>
    refine isChain_name hk (isChain_comma ih ih' h.finishes) ?_
    obtain ⟨tok', us, rfl, -⟩ := h.begins
    exact h.adjoins_colon

/-- A token that a phrase begins with begins with no closing bracket. -/
theorem Token.Begins.ne_closing [Alphabet] {φ : Phrase} {tok : Token} (hbegins : tok.Begins φ)
    (h : tok.IsSound) {c : CodePoint} (hc : c = .scalar ']' ∨ c = .scalar '}') (t t' : Text) :
    tok.text ++ t ≠ c :: t' := by
  have hatom : ∀ d, IsAtomPoint d → d ≠ c := by
    rintro d (hd | rfl | rfl | rfl)
    · rcases hc with rfl | rfl <;> exact Repair.ne_of_isKeyPoint hd (by decide)
    · rcases hc with rfl | rfl <;> decide
    · rcases hc with rfl | rfl <;> decide
    · rcases hc with rfl | rfl <;> decide
  intro heq
  have hhead := congrArg List.head? heq
  cases tok with
  | punctuation d =>
    cases hhead
    rcases hbegins with rfl | rfl <;> rcases hc with hc | hc <;> cases hc
  | literal q content =>
    cases hhead
    cases q <;> rcases hc with hc | hc <;> cases hc
  | key word =>
    obtain ⟨d, w, rfl⟩ := List.exists_cons_of_ne_nil h.1
    exact hatom d (.inl (h.2 d List.mem_cons_self)) (Option.some.inj hhead)
  | atom text =>
    obtain ⟨d, w, rfl⟩ := List.exists_cons_of_ne_nil h.1
    exact hatom d (h.2.1 d List.mem_cons_self) (Option.some.inj hhead)

end SourcePress.Json
