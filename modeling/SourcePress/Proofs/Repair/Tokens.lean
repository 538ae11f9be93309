import SourcePress.Proofs.Json.Order
import SourcePress.Proofs.Repair.Mend

/-!
# Mending tokens

Tokens are mended like lexemes: a comma before a closing bracket is dropped, a bare key and a
single-quoted literal get quotation marks. What is mended of a document that the settings allow is
derived from strict tokens and stands for the same value; strict tokens stay as they are.
-/

namespace SourcePress.Repair

open Lexis Json

/-- The live code point that a token begins with. -/
def frontPoint : Token → Option CodePoint
  | .punctuation c => some c
  | .literal .. => none
  | .key word => word.head?
  | .atom text => text.head?

/-- The live code point that a token ends with. -/
def backPoint : Token → Option CodePoint
  | .punctuation c => some c
  | .literal .. => none
  | .key word => word.getLast?
  | .atom text => text.getLast?

/-- The live code point in front of what follows, where this one stands behind the tokens. -/
def frontFrom (y : Option CodePoint) : List Token → Option CodePoint
  | [] => y
  | tok :: _ => frontPoint tok

/-- The live code point behind tokens, where this one stands in front of them. -/
def backFrom (x : Option CodePoint) : List Token → Option CodePoint
  | [] => x
  | tok :: ts => backFrom (backPoint tok) ts

/-- What is left of a token between two live code points. -/
def mendToken (s : Settings) (x y : Option CodePoint) : Token → List Token
  | .punctuation c =>
    if c = .scalar ',' ∧ s.removeTrailingCommas = true ∧ Closes y then [] else [.punctuation c]
  | .literal q content =>
    if q = .single ∧ s.convertSingleQuotes = true ∧
        (QuoteTarget.keys.accepts x y = true ∨ QuoteTarget.values.accepts x y = true) then
      [.literal .double (requoteContent content)]
    else [.literal q content]
  | .key word =>
    if s.quoteKeys = true ∧ PrecedesKey x ∧ y = some (.scalar ':') then [.literal .double word]
    else [.key word]
  | .atom text => [.atom text]

/-- What is left of tokens between two live code points. -/
def mendTokens (s : Settings) (x y : Option CodePoint) : List Token → List Token
  | [] => []
  | tok :: ts => mendToken s x (frontFrom y ts) tok ++ mendTokens s (backPoint tok) y ts

/-- The live code point in front of two sequences. -/
theorem frontFrom_append (y : Option CodePoint) (ts us : List Token) :
    frontFrom y (ts ++ us) = frontFrom (frontFrom y us) ts := by
  cases ts <;> rfl

/-- Two sequences are mended one by one. -/
theorem mendTokens_append (s : Settings) (x y : Option CodePoint) (ts us : List Token) :
    mendTokens s x y (ts ++ us) =
      mendTokens s x (frontFrom y us) ts ++ mendTokens s (backFrom x ts) y us := by
  induction ts generalizing x with
  | nil => rfl
  | cons tok ts ih =>
    rw [List.cons_append, mendTokens, mendTokens, frontFrom_append, ih, List.append_assoc]
    rfl

/-- At most one token is left of a token. -/
theorem length_mendToken_le (s : Settings) (x y : Option CodePoint) (tok : Token) :
    (mendToken s x y tok).length ≤ 1 := by
  cases tok with
  | punctuation c =>
    rw [mendToken]
    split
    · exact Nat.zero_le 1
    · exact le_rfl
  | literal q content =>
    rw [mendToken]
    split
    · exact le_rfl
    · exact le_rfl
  | key word =>
    rw [mendToken]
    split
    · exact le_rfl
    · exact le_rfl
  | atom text => exact le_rfl

/-- Mending makes no token. -/
theorem length_mendTokens_le (s : Settings) (x y : Option CodePoint) (ts : List Token) :
    (mendTokens s x y ts).length ≤ ts.length := by
  induction ts generalizing x with
  | nil => exact le_rfl
  | cons tok ts ih =>
    have hone := length_mendToken_le s x (frontFrom y ts) tok
    have hrest := ih (backPoint tok)
    rw [mendTokens, List.length_append, List.length_cons]
    omega

/-- Tokens that stay as they are stay one by one. -/
theorem mendTokens_cons_eq_self {s : Settings} {x y : Option CodePoint} {tok : Token}
    {ts : List Token} (h : mendTokens s x y (tok :: ts) = tok :: ts) :
    mendToken s x (frontFrom y ts) tok = [tok] ∧ mendTokens s (backPoint tok) y ts = ts := by
  have hone := length_mendToken_le s x (frontFrom y ts) tok
  have hrest := length_mendTokens_le s (backPoint tok) y ts
  rw [mendTokens] at h
  have hlength := congrArg List.length h
  rw [List.length_append, List.length_cons] at hlength
  obtain ⟨tok', htok'⟩ := List.length_eq_one_iff.mp
    (show (mendToken s x (frontFrom y ts) tok).length = 1 by omega)
  rw [htok', List.singleton_append] at h
  obtain ⟨rfl, hts⟩ := List.cons.inj h
  exact ⟨htok', hts⟩

/-- Settings that switch on the repairs of a dialect. -/
structure Settings.Covers (s dialect : Settings) : Prop where
  /-- Comments are taken out if there may be any. -/
  stripComments : dialect.stripComments = true → s.stripComments = true
  /-- Trailing commas are taken out if there may be any. -/
  removeTrailingCommas : dialect.removeTrailingCommas = true → s.removeTrailingCommas = true
  /-- Bare keys are quoted if there may be any. -/
  quoteKeys : dialect.quoteKeys = true → s.quoteKeys = true
  /-- Single-quoted strings are converted if there may be any. -/
  convertSingleQuotes : dialect.convertSingleQuotes = true → s.convertSingleQuotes = true

/-- The strict dialect needs no repair. -/
theorem Settings.covers_none (s : Settings) : s.Covers .none :=
  ⟨fun h => absurd h Bool.false_ne_true, fun h => absurd h Bool.false_ne_true,
    fun h => absurd h Bool.false_ne_true, fun h => absurd h Bool.false_ne_true⟩

/-- Settings cover their own dialect. -/
theorem Settings.covers_self (s : Settings) : s.Covers s := ⟨id, id, id, id⟩

/-- A mark of punctuation that is no comma stays. -/
theorem mendToken_punctuation {s : Settings} {x y : Option CodePoint} {c : CodePoint}
    (h : c ≠ .scalar ',' ∨ ¬Closes y) : mendToken s x y (.punctuation c) = [.punctuation c] := by
  rw [mendToken, if_neg fun hdrop => h.elim (absurd hdrop.1) (absurd hdrop.2.2)]

/-- A literal between quotation marks stays. -/
theorem mendToken_double (s : Settings) (x y : Option CodePoint) (content : Text) :
    mendToken s x y (.literal .double content) = [.literal .double content] := by
  rw [mendToken, if_neg fun h => Quote.noConfusion h.1]

/-- What a phrase begins with is no closing bracket. -/
theorem not_closes_frontPoint [Alphabet] {φ : Phrase} {tok : Token} (hbegins : tok.Begins φ)
    (hsound : tok.IsSound) : ¬Closes (frontPoint tok) := by
  have hclosing : ∀ c, c = .scalar ']' ∨ c = .scalar '}' → frontPoint tok ≠ some c := by
    intro c hc hfront
    cases tok with
    | punctuation d =>
      cases hfront
      rcases hbegins with rfl | rfl <;> rcases hc with hc | hc <;> cases hc
    | literal => cases hfront
    | key word =>
      obtain ⟨t, rfl⟩ := List.head?_eq_some_iff.mp hfront
      exact hbegins.ne_closing hsound hc [] t (List.append_nil _)
    | atom text =>
      obtain ⟨t, rfl⟩ := List.head?_eq_some_iff.mp hfront
      exact hbegins.ne_closing hsound hc [] t (List.append_nil _)
  rintro (h | h)
  · exact hclosing _ (.inr rfl) h
  · exact hclosing _ (.inl rfl) h

/-- True of the live code points behind which a phrase of a document stands. -/
def Follows (x : Option CodePoint) : Phrase → Prop
  | .value nested _ =>
    nested = true → x = some (.scalar ':') ∨ x = some (.scalar '[') ∨ x = some (.scalar ',')
  | .items _ => x = some (.scalar '[') ∨ x = some (.scalar ',')
  | .members _ => PrecedesKey x

section Derivations

variable {s dialect : Settings}

/-- A name is mended to a strict one of the same key. -/
theorem mendToken_of_names [Alphabet] (hs : s.Covers dialect) {tok : Token} {k : Text}
    (h : Names dialect tok k) {x : Option CodePoint} (hx : PrecedesKey x) :
    ∃ tok', mendToken s x (some (.scalar ':')) tok = [tok'] ∧ Names .none tok' k ∧
      (dialect = .none → tok' = tok) := by
  cases h with
  | double h => exact ⟨_, mendToken_double .., .double h, fun _ => rfl⟩
  | @single content _ hdialect h =>
    have hkeys : QuoteTarget.keys.accepts x (some (.scalar ':')) = true := by
      rcases hx with rfl | rfl <;> rfl
    refine ⟨.literal .double (requoteContent content), ?_, .double h.requoteContent, ?_⟩
    · rw [mendToken, if_pos ⟨rfl, hs.convertSingleQuotes hdialect, .inl hkeys⟩]
    · rintro rfl
      cases hdialect
  | bare hdialect hne hkey =>
    have hnames := Names.double (s := .none) (spells_of_isKeyPoint hkey)
    rw [joined_plain] at hnames
    refine ⟨.literal .double k, ?_, hnames, ?_⟩
    · rw [mendToken, if_pos ⟨hs.quoteKeys hdialect, hx, rfl⟩]
    · rintro rfl
      cases hdialect

/-- What trails before a closing bracket is dropped. -/
theorem mendTokens_trail (hs : s.Covers dialect) {trail : List Token} (h : Trails dialect trail)
    {c : CodePoint} (hc : c = .scalar ']' ∨ c = .scalar '}') (x y : Option CodePoint) :
    mendTokens s x y (trail ++ [.punctuation c]) = [.punctuation c] ∧
      (dialect = .none → trail = []) := by
  have hcomma : c ≠ .scalar ',' := by rcases hc with rfl | rfl <;> decide
  have hcloses : Closes (some c) := hc.symm.imp (congrArg some) (congrArg some)
  rcases h with rfl | ⟨hdialect, rfl⟩
  · refine ⟨?_, fun _ => rfl⟩
    rw [List.nil_append, mendTokens, mendTokens, mendToken_punctuation (.inl hcomma),
      List.append_nil]
  · constructor
    · have hdrop : mendToken s x (some c) (.punctuation (.scalar ',')) = [] := by
        rw [mendToken, if_pos ⟨rfl, hs.removeTrailingCommas hdialect, hcloses⟩]
      rw [List.singleton_append, mendTokens, mendTokens, mendTokens,
        mendToken_punctuation (.inl hcomma), List.append_nil, frontFrom, frontPoint, hdrop,
        List.nil_append]
    · rintro rfl
      cases hdialect

/-- A phrase before a comma and others are mended one by one, and the comma stays. -/
theorem mendTokens_comma [Alphabet] {n : Nat} {φ : Phrase} {us : List Token} (h : Derives dialect n φ us)
    (x y : Option CodePoint) (ts : List Token) :
    mendTokens s x y (ts ++ .punctuation (.scalar ',') :: us) =
      mendTokens s x (some (.scalar ',')) ts ++ .punctuation (.scalar ',') ::
        mendTokens s (some (.scalar ',')) y us := by
  obtain ⟨tok, us', rfl, hbegins⟩ := h.begins
  have hstays : ¬Closes (frontFrom y (tok :: us')) :=
    not_closes_frontPoint hbegins (h.isSound tok List.mem_cons_self)
  rw [mendTokens_append, mendTokens, mendToken_punctuation (.inr hstays)]
  rfl

/-- A phrase between brackets is mended between them. -/
theorem mendTokens_container (hs : s.Covers dialect) {trail : List Token}
    (h : Trails dialect trail) {c c' : CodePoint} (hc : c ≠ .scalar ',')
    (hc' : c' = .scalar ']' ∨ c' = .scalar '}') (x y : Option CodePoint) (ts : List Token) :
    mendTokens s x y (.punctuation c :: (ts ++ (trail ++ [.punctuation c']))) =
      .punctuation c :: (mendTokens s (some c) (frontFrom y (trail ++ [.punctuation c'])) ts ++
        [.punctuation c']) := by
  rw [mendTokens, mendToken_punctuation (.inl hc), mendTokens_append,
    (mendTokens_trail hs h hc' _ _).1]
  rfl

/-- A name with its colon and a value are mended one by one. -/
theorem mendTokens_name {x y : Option CodePoint} {tok tok' : Token} {ts : List Token}
    (h : mendToken s x (some (.scalar ':')) tok = [tok']) :
    mendTokens s x y (tok :: .punctuation (.scalar ':') :: ts) =
      tok' :: .punctuation (.scalar ':') :: mendTokens s (some (.scalar ':')) y ts := by
  rw [mendTokens, frontFrom, frontPoint, h, mendTokens, mendToken_punctuation (.inl (by decide))]
  rfl

/-- What is mended of a phrase is strict and stands for the same, and a strict phrase stays. -/
theorem derives_mendTokens [Alphabet] (hs : s.Covers dialect) {n : Nat} {φ : Phrase} {ts : List Token}
    (h : Derives dialect n φ ts) {x : Option CodePoint} (hx : Follows x φ)
    (y : Option CodePoint) :
    Derives .none n φ (mendTokens s x y ts) ∧ (dialect = .none → mendTokens s x y ts = ts) := by
  -- a value behind a colon, an opening bracket or a comma is nested, and may be a string between
  -- single quotes there
  have hnested : ∀ {c v}, c = CodePoint.scalar ':' ∨ c = .scalar '[' ∨ c = .scalar ',' →
      Follows (some c) (.value true v) := by
    rintro c v (rfl | rfl | rfl)
    · exact fun _ => .inl rfl
    · exact fun _ => .inr (.inl rfl)
    · exact fun _ => .inr (.inr rfl)
  induction h generalizing x y with
  | null => exact ⟨.null, fun _ => rfl⟩
  | bool b => exact ⟨.bool b, fun _ => rfl⟩
  | number ht hv => exact ⟨.number ht hv, fun _ => rfl⟩
  | string h =>
    rw [mendTokens, mendToken_double]
    exact ⟨.string h, fun _ => rfl⟩
  | singleString hdialect h =>
    have hvalues : ∀ y, QuoteTarget.values.accepts x y = true := by
      rcases hx rfl with rfl | rfl | rfl <;> exact fun _ => rfl
    rw [mendTokens, mendToken, if_pos ⟨rfl, hs.convertSingleQuotes hdialect, .inr (hvalues _)⟩]
    refine ⟨.string h.requoteContent, ?_⟩
    rintro rfl
    cases hdialect
  | emptyArray =>
    rw [mendTokens, mendTokens, mendToken_punctuation (.inl (by decide)),
      mendToken_punctuation (.inl (by decide))]
    exact ⟨.emptyArray, fun _ => rfl⟩
  | array h htrail ih =>
    have hi := ih (x := some (.scalar '[')) (.inl rfl)
    rw [mendTokens_container hs htrail (by decide) (.inl rfl)]
    refine ⟨.array (hi _).1 (.inl rfl), fun hdialect => ?_⟩
    rw [(hi _).2 hdialect, (mendTokens_trail hs htrail (.inl rfl) none none).2 hdialect]
    rfl
  | emptyObject =>
    rw [mendTokens, mendTokens, mendToken_punctuation (.inl (by decide)),
      mendToken_punctuation (.inl (by decide))]
    exact ⟨.emptyObject, fun _ => rfl⟩
  | object h htrail ih =>
    have hi := ih (x := some (.scalar '{')) (.inl rfl)
    rw [mendTokens_container hs htrail (by decide) (.inr rfl)]
    refine ⟨.object (hi _).1 (.inl rfl), fun hdialect => ?_⟩
    rw [(hi _).2 hdialect, (mendTokens_trail hs htrail (.inr rfl) none none).2 hdialect]
    rfl
  | item h ih =>
    have hi := ih (x := x) (fun _ => .inr hx) y
    exact ⟨.item hi.1, hi.2⟩
  | consItem h h' ih ih' =>
    have hi := ih (x := x) (fun _ => .inr hx) (some (.scalar ','))
    have hi' := ih' (x := some (.scalar ',')) (.inr rfl) y
    rw [mendTokens_comma h']
    exact ⟨.consItem hi.1 hi'.1, fun hdialect => by rw [hi.2 hdialect, hi'.2 hdialect]⟩
  | member hk h ih =>
    have hi := ih (hnested (.inl rfl)) y
    obtain ⟨tok', hmend, hnames, hstays⟩ := mendToken_of_names hs hk hx
    rw [mendTokens_name hmend]
    exact ⟨.member hnames hi.1, fun hdialect => by rw [hi.2 hdialect, hstays hdialect]⟩
  | consMember hk h h' ih ih' =>
    have hi := ih (hnested (.inl rfl)) (some (.scalar ','))
    have hi' := ih' (x := some (.scalar ',')) (.inr rfl) y
    obtain ⟨tok', hmend, hnames, hstays⟩ := mendToken_of_names hs hk hx
    rw [mendTokens_name hmend, mendTokens_comma h']
    refine ⟨.consMember hnames hi.1 hi'.1, fun hdialect => ?_⟩
    rw [hi.2 hdialect, hi'.2 hdialect, hstays hdialect]

end Derivations

end SourcePress.Repair
