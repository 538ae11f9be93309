import SourcePress.Proofs.Json.Order
import SourcePress.Proofs.Repair.Readied

/-!
# The lexemes of documents

The lexemes of a document are those of its tokens with blanks and comments between them. Without the
comments they are laid out in the same way, and only blanks stand between the tokens.
-/

namespace SourcePress.Repair

open Lexis Json

variable [Alphabet]

/-- The lexemes of a token. -/
def tokenLexemes : Token → List Lexeme
  | .punctuation c => [[live c]]
  | .literal q content => [(Region.string q).construct (q.literal content)]
  | .key word => [word.map live]
  | .atom text => lexemes (scan text)

@[simp] theorem spelled_tokenLexemes (tok : Token) : spelled (tokenLexemes tok) = tok.text := by
  cases tok with
  | punctuation c => rfl
  | literal q content => simp [tokenLexemes, Token.text]
  | key word => simp [tokenLexemes, Token.text]
  | atom text => simp [tokenLexemes, Token.text]

/-- The lexemes that tokens are laid out in. -/
inductive Laid (comments : Bool) : List Token → List Lexeme → Prop
  /-- The end of the text. -/
  | nil : Laid comments [] []
  /-- A line comment that the text ends. -/
  | lastLine {body : Text} (hs : comments = true) (hbody : ∀ c ∈ body, c.isLineEnd = false) :
      Laid comments [] [Region.lineComment.construct ('/' :: '/' :: body)]
  /-- A blank of JSON. -/
  | blank {c : CodePoint} {ts : List Token} {ls : List Lexeme} (hc : isGap c)
      (h : Laid comments ts ls) : Laid comments ts ([live c] :: ls)
  /-- A block comment. -/
  | block {body : Text} {ts : List Token} {ls : List Lexeme} (hs : comments = true)
      (hbody : StaysInBlock (body ++ [.scalar '*'])) (h : Laid comments ts ls) :
      Laid comments ts (Region.blockComment.construct (blockText body) :: ls)
  /-- A line comment with the end of its line. -/
  | line {body : Text} {c : CodePoint} {ts : List Token} {ls : List Lexeme} (hs : comments = true)
      (hbody : ∀ c ∈ body, c.isLineEnd = false) (hc : c.isLineEnd) (h : Laid comments ts ls) :
      Laid comments ts (Region.lineComment.construct ('/' :: '/' :: body) :: [live c] :: ls)
  /-- A token. -/
  | token {tok : Token} {ts : List Token} {ls : List Lexeme} (h : Laid comments ts ls) :
      Laid comments (tok :: ts) (tokenLexemes tok ++ ls)

/-- Where no comments are, tokens are laid out with blanks alone. -/
@[elab_as_elim]
theorem Laid.strict_induction
    {motive : (ts : List Token) → (ls : List Lexeme) → Laid false ts ls → Prop}
    (nil : motive [] [] .nil)
    (blank : ∀ {c : CodePoint} {ts : List Token} {ls : List Lexeme} (hc : isGap c)
      (h : Laid false ts ls), motive ts ls h → motive ts ([live c] :: ls) (.blank hc h))
    (token : ∀ {tok : Token} {ts : List Token} {ls : List Lexeme} (h : Laid false ts ls),
      motive ts ls h → motive (tok :: ts) (tokenLexemes tok ++ ls) (.token h))
    {ts : List Token} {ls : List Lexeme} (h : Laid false ts ls) : motive ts ls h := by
  induction h with
  | nil => exact nil
  | lastLine hs => cases hs
  | blank hc h ih => exact blank hc h ih
  | block hs => cases hs
  | line hs => cases hs
  | token h ih => exact token h ih

/-- Tokens in front are laid out side by side. -/
theorem Laid.tokens_append {comments : Bool} {ts : List Token} {ls : List Lexeme}
    (h : Laid comments ts ls) (us : List Token) :
    Laid comments (us ++ ts) (us.flatMap tokenLexemes ++ ls) := by
  induction us with
  | nil => exact h
  | cons tok us ih =>
    rw [List.flatMap_cons, List.append_assoc]
    exact .token ih

/-- A gap in front is laid out. -/
theorem Laid.gap {comments : Bool} {gap : Text} (hgap : Gap comments gap) {ts : List Token}
    {ls : List Lexeme} (h : Laid comments ts ls) :
    ∃ ls', Laid comments ts ls' ∧ spelled ls' = gap ++ spelled ls := by
  induction hgap with
  | nil => exact ⟨ls, h, rfl⟩
  | blank hc hgap ih =>
    obtain ⟨ls', h', hspelled⟩ := ih
    exact ⟨_, .blank hc h', by rw [spelled_cons, hspelled]; rfl⟩
  | block hs hbody hgap ih =>
    obtain ⟨ls', h', hspelled⟩ := ih
    refine ⟨_, .block hs hbody h', ?_⟩
    rw [spelled_cons, hspelled, Region.points_construct, List.append_assoc]
  | line hs hbody hc hgap ih =>
    obtain ⟨ls', h', hspelled⟩ := ih
    refine ⟨_, .line hs hbody hc h', ?_⟩
    rw [spelled_cons, spelled_cons, hspelled, Region.points_construct]
    simp

/-- A text of tokens is the text of lexemes that they are laid out in. -/
theorem exists_laid {comments : Bool} {ts : List Token} {t : Text} (h : Woven comments ts t) :
    ∃ ls, Laid comments ts ls ∧ spelled ls = t := by
  induction h with
  | nil hgap =>
    rcases hgap with hgap | ⟨hs, gap, body, hgap, hbody, rfl⟩
    · obtain ⟨ls, h, hspelled⟩ := Laid.nil.gap hgap
      exact ⟨ls, h, by rw [hspelled, spelled_nil, List.append_nil]⟩
    · obtain ⟨ls, h, hspelled⟩ := (Laid.lastLine hs hbody).gap hgap
      exact ⟨ls, h, by rw [hspelled, spelled_cons, Region.points_construct]; simp⟩
  | cons hgap h ih =>
    obtain ⟨ls, h', rfl⟩ := ih
    obtain ⟨ls', h'', hspelled⟩ := (Laid.token h').gap hgap
    exact ⟨ls', h'', by rw [hspelled, spelled_append, spelled_tokenLexemes]⟩

/-- The text of lexemes that tokens are laid out in is one of the tokens. -/
theorem Laid.woven {comments : Bool} {ts : List Token} {ls : List Lexeme}
    (h : Laid comments ts ls) : Woven comments ts (spelled ls) := by
  induction h with
  | nil => exact .nil (.inl .nil)
  | lastLine hs hbody =>
    rw [spelled_cons, Region.points_construct]
    exact .nil (.inr ⟨hs, [], _, .nil, hbody, by simp⟩)
  | blank hc h ih =>
    rw [spelled_cons]
    exact ih.gap_append (.blank hc .nil)
  | @block body ts ls hs hbody h ih =>
    rw [spelled_cons, Region.points_construct]
    have hgap := Gap.block hs hbody .nil
    rw [List.append_nil] at hgap
    exact ih.gap_append hgap
  | line hs hbody hc h ih =>
    rw [spelled_cons, spelled_cons, Region.points_construct, ← List.append_assoc]
    have hgap := Gap.line hs hbody hc .nil
    refine ih.gap_append ?_
    simpa using hgap
  | token h ih =>
    rw [spelled_append, spelled_tokenLexemes]
    exact .cons .nil ih

/-- True of the lexemes that atoms are made of. -/
def IsAtomLexeme (l : Lexeme) : Prop :=
  (∃ c, (c = .scalar '-' ∨ c = .scalar '+' ∨ c = .scalar '.') ∧ l = [live c]) ∨
    ∃ w : Text, w ≠ [] ∧ (∀ c ∈ w, isKeyPoint c) ∧ l = w.map live

/-- An atom's code point is a key character, or it opens and escapes nothing. -/
theorem IsAtomPoint.not_key {c : CodePoint} (h : IsAtomPoint c) (hkey : isKeyPoint c = false) :
    c = .scalar '-' ∨ c = .scalar '+' ∨ c = .scalar '.' := by
  refine h.resolve_left ?_
  rw [hkey]
  exact Bool.false_ne_true

omit [Alphabet] in
/-- A sign or a point opens nothing. -/
theorem opening?_of_sign {c : CodePoint} (h : c = .scalar '-' ∨ c = .scalar '+' ∨ c = .scalar '.')
    (next : Option CodePoint) : Mode.opening? c next = none := by
  refine opening?_of_plain ?_ ?_ next
  · rcases h with rfl | rfl | rfl <;> rfl
  · rcases h with rfl | rfl | rfl <;> decide

/-- No atom has a mark of ASCII but the two signs and the point. -/
theorem not_isAtomPoint_of_isAsciiMark {c : CodePoint} (h : isAsciiMark c)
    (hsign : c ∉ Text.ofString "-+.") : ¬IsAtomPoint c := fun hatom =>
  hsign (by simpa [Text.ofString] using
    IsAtomPoint.not_key hatom (isKeyPoint_of_isAsciiMark h))

/-- No atom has a quote or a solidus. -/
theorem not_isAtomPoint {c : CodePoint} (h : (∃ q : Quote, c = q.point) ∨ c = .scalar '/') :
    ¬IsAtomPoint c := by
  rcases h with ⟨q, rfl⟩ | rfl
  · cases q <;> exact not_isAtomPoint_of_isAsciiMark (by decide) (by decide)
  · exact not_isAtomPoint_of_isAsciiMark (by decide) (by decide)

/-- No atom has a colon. -/
theorem not_isAtomPoint_colon : ¬IsAtomPoint (.scalar ':') :=
  not_isAtomPoint_of_isAsciiMark (by decide) (by decide)

/-- The text of atoms is cut into words, signs and points, and may stand before whatever does not
go on with a word. -/
theorem Lexed.atoms {e : Bool} {as : List Lexeme} (h : Lexed e as)
    (hatom : ∀ c ∈ spelled as, IsAtomPoint c) :
    (∀ l ∈ as, IsAtomLexeme l) ∧ ∀ ls, e = false → Lexed false ls →
      (∀ m ∈ ls.flatten.head?, isKeyMark m = false) → Lexed false (as ++ ls) := by
  induction h with
  | nil => exact ⟨by simp, fun ls _ hls _ => hls⟩
  | @point e c rest hkey hopen hrest ih =>
    have hc : IsAtomPoint c := hatom c (by simp)
    have hsign := IsAtomPoint.not_key hc hkey
    have hi := ih fun d hd => hatom d (by simp [hd])
    have hescape : decide (c = .scalar '\\') = false := by
      rcases hsign with rfl | rfl | rfl <;> rfl
    rw [hescape, Bool.and_false] at hi
    refine ⟨List.forall_mem_cons.mpr ⟨.inl ⟨c, hsign, rfl⟩, hi.1⟩, fun ls _ hls hhead => ?_⟩
    refine .point hkey (.inr (opening?_of_sign hsign _)) ?_
    rw [hescape, Bool.and_false]
    exact hi.2 ls rfl hls hhead
  | @word e w rest hne hkey hnext hrest ih =>
    have hi := ih fun d hd => hatom d (by simp [hd])
    refine ⟨List.forall_mem_cons.mpr ⟨.inr ⟨w, hne, hkey, rfl⟩, hi.1⟩, fun ls _ hls hhead => ?_⟩
    refine .word hne hkey ?_ (hi.2 ls rfl hls hhead)
    intro m hm
    change m ∈ (rest ++ ls).flatten.head? at hm
    rw [List.flatten_append, List.head?_append] at hm
    cases hr : rest.flatten.head? with
    | none =>
      rw [hr, Option.none_or] at hm
      exact hhead m hm
    | some m' =>
      rw [hr] at hm
      exact hnext m (by rw [hr]; exact hm)
  | @literal q content =>
    exact absurd (hatom q.point (by simp [Quote.literal])) (not_isAtomPoint (.inl ⟨q, rfl⟩))
  | @unclosedLiteral q =>
    exact absurd (hatom q.point (by simp)) (not_isAtomPoint (.inl ⟨q, rfl⟩))
  | line => exact absurd (hatom (.scalar '/') (by simp)) (not_isAtomPoint (.inr rfl))
  | block => exact absurd (hatom (.scalar '/') (by simp [blockText])) (not_isAtomPoint (.inr rfl))
  | unclosedBlock => exact absurd (hatom (.scalar '/') (by simp)) (not_isAtomPoint (.inr rfl))

/-- The lexemes of an atom are words, signs and points. -/
theorem isAtomLexeme_of_mem {text : Text} (h : (Token.atom text).IsSound) :
    ∀ l ∈ lexemes (scan text), IsAtomLexeme l :=
  ((lexed_lexemes text).atoms (by rw [spelled_lexemes]; exact h.2.1)).1

/-- No mark of punctuation is a key character. -/
theorem isKeyPoint_of_isPunctuation {c : CodePoint} (h : IsPunctuation c) :
    isKeyPoint c = false := by
  refine isKeyPoint_of_isAsciiMark ?_
  rcases h with rfl | rfl | rfl | rfl | rfl | rfl <;> decide

omit [Alphabet] in
/-- A mark of punctuation neither opens nor escapes anything. -/
theorem opening?_of_isPunctuation {c : CodePoint} (h : IsPunctuation c) (next : Option CodePoint) :
    Mode.opening? c next = none ∧ decide (c = .scalar '\\') = false := by
  constructor
  · refine opening?_of_plain ?_ ?_ next
    · rcases h with rfl | rfl | rfl | rfl | rfl | rfl <;> rfl
    · rcases h with rfl | rfl | rfl | rfl | rfl | rfl <;> decide
  · rcases h with rfl | rfl | rfl | rfl | rfl | rfl <;> rfl

/-- True of the tokens that end in a word. -/
def IsWordy : Token → Prop
  | .key _ | .atom _ => True
  | _ => False

omit [Alphabet] in
/-- Tokens that end in a word are followed by none that begins with one. -/
theorem not_isWordy_of_adjoins {tok tok' : Token} (h : tok.Adjoins tok') (hwordy : IsWordy tok) :
    ¬IsWordy tok' := by
  cases tok with
  | punctuation => exact hwordy.elim
  | literal => exact hwordy.elim
  | key => cases tok' <;> simp_all [Token.Adjoins, IsWordy]
  | atom => cases tok' <;> simp_all [Token.Adjoins, IsWordy]

/-- Only keys and atoms begin with key characters. -/
theorem Laid.head_not_key {comments : Bool} {ts : List Token} {ls : List Lexeme}
    (h : Laid comments ts ls) (hsound : ∀ tok ∈ ts, tok.IsSound)
    (hnot : ∀ tok ∈ ts.head?, ¬IsWordy tok) :
    ∀ m ∈ ls.flatten.head?, isKeyMark m = false := by
  intro m hm
  cases h with
  | nil => cases hm
  | lastLine => cases hm; rfl
  | @blank c _ _ hc =>
    cases hm
    exact isKeyPoint_of_isBlank (isBlank_of_isGap hc)
  | block => cases hm; rfl
  | line => cases hm; rfl
  | @token tok ts ls h =>
    have htok := hnot tok rfl
    cases tok with
    | punctuation c =>
      cases hm
      exact isKeyPoint_of_isPunctuation (hsound _ List.mem_cons_self)
    | literal => cases hm; rfl
    | key => exact absurd trivial htok
    | atom => exact absurd trivial htok

/-- What tokens are laid out in is lexed. -/
theorem Laid.lexed {comments : Bool} {ts : List Token} {ls : List Lexeme}
    (h : Laid comments ts ls) (hsound : ∀ tok ∈ ts, tok.IsSound)
    (hchain : ts.IsChain Token.Adjoins) : Lexed false ls := by
  induction h with
  | nil => exact .nil _
  | lastLine hs hbody => exact .line hbody (by simp) (.nil _)
  | @blank c ts ls hc h ih =>
    exact .blank_cons (isBlank_of_isGap hc) (ih hsound hchain)
  | block hs hbody h ih => exact .block hbody (ih hsound hchain)
  | @line body c ts ls hs hbody hc h ih =>
    have hblank := CodePoint.isBlank_of_isLineEnd hc
    exact .line hbody (by simpa using hc) (.blank_cons hblank (ih hsound hchain))
  | @token tok ts ls h ih =>
    have htail : ∀ tok ∈ ts, tok.IsSound := fun tok htok => hsound tok (List.mem_cons_of_mem _ htok)
    have hi := ih htail hchain.tail
    have hhead : IsWordy tok → ∀ m ∈ ls.flatten.head?, isKeyMark m = false := fun hwordy =>
      h.head_not_key htail fun tok' htok' =>
        not_isWordy_of_adjoins ((List.isChain_cons.mp hchain).1 tok' htok') hwordy
    have htok := hsound tok List.mem_cons_self
    cases tok with
    | punctuation c =>
      have hopen := opening?_of_isPunctuation htok (spelled ls).head?
      refine .point (isKeyPoint_of_isPunctuation htok) (.inr hopen.1) ?_
      rw [hopen.2]
      exact hi
    | literal => exact .literal htok hi
    | key => exact .word htok.1 htok.2 (hhead trivial) hi
    | atom text =>
      have hatoms := (lexed_lexemes text).atoms (by rw [spelled_lexemes]; exact htok.2.1)
      exact hatoms.2 ls rfl hi (hhead trivial)

/-- No token is a comment. -/
theorem uncomment_tokenLexemes {tok : Token} (h : tok.IsSound) :
    uncomment (tokenLexemes tok) = tokenLexemes tok := by
  cases tok with
  | punctuation => rfl
  | literal => simp [tokenLexemes]
  | key => simp [tokenLexemes]
  | atom text =>
    have hself : ∀ {as : List Lexeme}, (∀ l ∈ as, IsAtomLexeme l) → uncomment as = as := by
      intro as has
      induction as with
      | nil => rfl
      | cons l as ih =>
        rw [uncomment_cons, ih fun l hl => has l (List.mem_cons_of_mem _ hl)]
        rcases has l List.mem_cons_self with ⟨c, -, rfl⟩ | ⟨w, -, -, rfl⟩
        · rfl
        · rw [uncommented_word]
          rfl
    exact hself (isAtomLexeme_of_mem h)

omit [Alphabet] in
@[simp] theorem uncomment_append (ls ms : List Lexeme) :
    uncomment (ls ++ ms) = uncomment ls ++ uncomment ms :=
  List.flatMap_append

/-- Without comments tokens stay laid out. -/
theorem Laid.uncomment {comments : Bool} {ts : List Token} {ls : List Lexeme}
    (h : Laid comments ts ls) (hsound : ∀ tok ∈ ts, tok.IsSound) :
    Laid false ts (uncomment ls) := by
  induction h with
  | nil => exact .nil
  | lastLine => exact .nil
  | blank hc h ih => exact .blank hc (ih hsound)
  | block hs hbody h ih => exact .blank (by decide) (ih hsound)
  | @line body c ts ls hs hbody hc h ih =>
    have hgap : isGap c := by
      simp only [CodePoint.isLineEnd, Bool.or_eq_true, decide_eq_true_eq] at hc
      rcases hc with rfl | rfl <;> decide
    exact .blank hgap (ih hsound)
  | token h ih =>
    rw [uncomment_append, uncomment_tokenLexemes (hsound _ List.mem_cons_self)]
    exact .token (ih fun tok htok => hsound tok (List.mem_cons_of_mem _ htok))

/-- Where no comments are, none are taken out. -/
theorem Laid.uncomment_eq {ts : List Token} {ls : List Lexeme} (h : Laid false ts ls)
    (hsound : ∀ tok ∈ ts, tok.IsSound) : Repair.uncomment ls = ls := by
  induction h using Laid.strict_induction with
  | nil => rfl
  | blank hc h ih =>
    rw [uncomment_cons, ih hsound]
    rfl
  | token h ih =>
    rw [uncomment_append, uncomment_tokenLexemes (hsound _ List.mem_cons_self),
      ih fun tok htok => hsound tok (List.mem_cons_of_mem _ htok)]

end SourcePress.Repair
