import SourcePress.Detection.Verdict
import SourcePress.Proofs.Document

/-!
# Features of strict documents

A strict document of a container begins and ends with a bracket, between gaps. If an object with a
member stands anywhere in it, the key of the member is a string literal in front of a colon, which
is found as a quoted key whatever the literal holds. So such a document has three features of JSON
at least.
-/

namespace SourcePress.Detection

/-- A pattern that asks for no edge is found wherever its parts fit. -/
theorem foundFrom_append [Alphabet] {p : Pattern} (hedge : p.atEdge = false) {t : Text}
    (h : (p.parts.foldlM Part.behind? t).isSome = true) (before : Option CodePoint)
    (front : Text) : p.foundFrom before (front ++ t) = true := by
  have hmatches : ∀ before, p.matchesAt before t = true := fun before => by
    rw [Pattern.matchesAt, hedge, h]
    rfl
  induction front generalizing before with
  | nil =>
    cases t with
    | nil => exact hmatches before
    | cons c rest => rw [List.nil_append, Pattern.foundFrom, hmatches before, Bool.true_or]
  | cons c front ih => rw [List.cons_append, Pattern.foundFrom, ih, Bool.or_true]

/-- A quoted key fits at a string without quotation marks in front of a colon. -/
theorem behind_quotedKey {inner gap : Text} (hinner : ∀ c ∈ inner, notQuote c)
    (hgap : ∀ c ∈ gap, c.isSpacing) (behind : Text) :
    quotedKey.parts.foldlM Part.behind?
      (.scalar '"' :: (inner ++ .scalar '"' :: (gap ++ .scalar ':' :: behind))) = some behind := by
  have hstring : (inner ++ .scalar '"' :: (gap ++ .scalar ':' :: behind)).dropWhile notQuote =
      .scalar '"' :: (gap ++ .scalar ':' :: behind) := by
    rw [List.dropWhile_append_of_pos hinner]
    rfl
  have hspacing : (gap ++ .scalar ':' :: behind).dropWhile CodePoint.isSpacing =
      .scalar ':' :: behind := by
    rw [List.dropWhile_append_of_pos hgap]
    rfl
  simp [quotedKey, quotedParts, Detection.gap, Part.behind?, List.isPrefixOf?, hstring, hspacing]

/-- Behind the last quotation mark of a text that begins with one there is none. -/
theorem exists_last_quote (content : Text) : ∃ front inner : Text,
    .scalar '"' :: content = front ++ .scalar '"' :: inner ∧ ∀ c ∈ inner, notQuote c := by
  induction content using List.reverseRecOn with
  | nil => exact ⟨[], [], rfl, nofun⟩
  | append_singleton content c ih =>
    obtain ⟨front, inner, heq, hinner⟩ := ih
    by_cases hquote : notQuote c
    · refine ⟨front, inner ++ [c], ?_, List.forall_mem_append.mpr
        ⟨hinner, List.forall_mem_singleton.mpr hquote⟩⟩
      rw [← List.cons_append, heq, List.append_assoc, List.cons_append]
    · have hc : c = .scalar '"' := by simpa [notQuote] using hquote
      exact ⟨.scalar '"' :: content, [], by rw [hc]; rfl, nofun⟩

/-- A string literal in front of a colon is found as a quoted key, whatever it holds. -/
theorem quotedKey_isIn [Alphabet] (front content : Text) {gap : Text} (hgap : ∀ c ∈ gap, c.isSpacing)
    (behind : Text) : quotedKey.isIn
      (front ++ .scalar '"' :: (content ++ .scalar '"' :: (gap ++ .scalar ':' :: behind))) =
        true := by
  -- quotation marks in the content are escaped, and the pattern fits from the last of them on
  obtain ⟨lead, inner, heq, hinner⟩ := exists_last_quote content
  have hsplit : front ++ .scalar '"' :: (content ++ .scalar '"' :: (gap ++ .scalar ':' :: behind)) =
      (front ++ lead) ++
        .scalar '"' :: (inner ++ .scalar '"' :: (gap ++ .scalar ':' :: behind)) := by
    rw [← List.cons_append, heq]
    simp
  rw [hsplit]
  exact foundFrom_append rfl (by rw [behind_quotedKey hinner hgap]; rfl) none _

end SourcePress.Detection

namespace SourcePress.Json

/-- True of values with a member of an object in them. -/
inductive HasMember : Json → Prop
  /-- An object with members. -/
  | object {m : Text × Json} {ms : List (Text × Json)} : HasMember (.obj (m :: ms))
  /-- An array with an item that has a member in it. -/
  | array {v : Json} {vs : List Json} (hmem : v ∈ vs) (h : HasMember v) : HasMember (.arr vs)

/-- True of phrases with a member of an object in them. -/
def Phrase.HasMember : Phrase → Prop
  | value _ v => v.HasMember
  | items vs => ∃ v ∈ vs, v.HasMember
  | members _ => True

/-- What stands between tokens is spacing. -/
theorem isSpacing_of_isGap {c : CodePoint} (h : isGap c) : c.isSpacing := by
  simp only [isGap, Bool.or_eq_true, decide_eq_true_eq] at h
  rcases h with ((rfl | rfl) | rfl) | rfl <;> decide

/-- A text of tokens may be cut between two of them. -/
theorem Woven.split {us ts : List Token} {t : Text} (h : Woven false (us ++ ts) t) :
    ∃ front behind, t = front ++ behind ∧ Woven false ts behind := by
  induction us generalizing t with
  | nil => exact ⟨[], t, rfl, h⟩
  | cons tok us ih =>
    cases h with
    | @cons gap t _ _ hgap h =>
      obtain ⟨front, behind, rfl, hbehind⟩ := ih h
      exact ⟨gap ++ (tok.text ++ front), behind, by simp, hbehind⟩

/-- A token stands in the text behind a gap. -/
theorem Woven.exists_gap {tok : Token} {ts : List Token} {t : Text}
    (h : Woven false (tok :: ts) t) : ∃ gap behind, t = gap ++ (tok.text ++ behind) ∧
      (∀ c ∈ gap, c.isSpacing) ∧ Woven false ts behind := by
  cases h with
  | @cons gap behind _ _ hgap h =>
    exact ⟨gap, behind, rfl, fun c hc => isSpacing_of_isGap (hgap.isGap c hc), h⟩

/-- A strict document may be trimmed. -/
theorem Document.trim [Platform] {v : Json} {t : Text} (h : Document .none v t) : Document .none v t.trim := by
  obtain ⟨ts, hderives, hwoven⟩ := h
  obtain ⟨tok, ts', rfl, -⟩ := hderives.begins
  exact ⟨_, hderives, hwoven.trim hderives.isSound⟩

/-- Where a phrase has a member in it, a string stands in front of a colon. -/
theorem Derives.exists_key [Alphabet] {n : Nat} {φ : Phrase} {ts : List Token} (h : Derives .none n φ ts)
    (hφ : φ.HasMember) :
    ∃ content, [.literal .double content, .punctuation (.scalar ':')] <:+: ts := by
  -- the induction is on derivations of any dialect; only the names of members need the strict one
  generalize hs : Repair.Settings.none = s at h
  have hkey : ∀ {tok : Token} {k : Text} (ts : List Token), Names s tok k →
      ∃ content, [.literal .double content, .punctuation (.scalar ':')] <:+:
        tok :: .punctuation (.scalar ':') :: ts := by
    intro tok k ts hk
    subst hs
    obtain ⟨content, ps, -, rfl, -⟩ := hk.exists_literal
    exact ⟨content, (List.prefix_append [_, _] ts).isInfix⟩
  induction h with
  | null => cases hφ
  | bool => cases hφ
  | number _ hv =>
    rcases hv with ⟨-, -, rfl⟩ | ⟨-, x, -, rfl⟩ <;> cases hφ
  | string => cases hφ
  | singleString => cases hφ
  | emptyArray =>
    cases hφ with
    | array hmem => cases hmem
  | array h htrail ih =>
    cases hφ with
    | array hmem hv =>
      obtain ⟨content, hin⟩ := ih ⟨_, hmem, hv⟩
      exact ⟨content, List.infix_cons (hin.trans (List.prefix_append _ _).isInfix)⟩
  | emptyObject => cases hφ
  | object h htrail ih =>
    obtain ⟨content, hin⟩ := ih trivial
    exact ⟨content, List.infix_cons (hin.trans (List.prefix_append _ _).isInfix)⟩
  | item h ih =>
    obtain ⟨v, hmem, hv⟩ := hφ
    rw [List.mem_singleton.mp hmem] at hv
    exact ih hv
  | consItem h h' ih ih' =>
    obtain ⟨v, hmem, hv⟩ := hφ
    rcases List.mem_cons.mp hmem with rfl | hmem
    · obtain ⟨content, hin⟩ := ih hv
      exact ⟨content, hin.trans (List.prefix_append _ _).isInfix⟩
    · obtain ⟨content, hin⟩ := ih' ⟨v, hmem, hv⟩
      exact ⟨content, (List.infix_cons hin).trans (List.suffix_append _ _).isInfix⟩
  | member hk => exact hkey _ hk
  | consMember hk => exact hkey _ hk

/-- A container stands between brackets. -/
theorem Derives.exists_brackets [Alphabet] {s : Repair.Settings} {n : Nat} {nested : Bool} {v : Json}
    {ts : List Token} (h : Derives s n (.value nested v) ts)
    (hv : Detection.isContainer v = true) : ∃ opening closing us,
      ts = .punctuation opening :: (us ++ [.punctuation closing]) ∧
      (opening = .scalar '{' ∨ opening = .scalar '[') ∧
      (closing = .scalar '}' ∨ closing = .scalar ']') := by
  cases h with
  | null => cases hv
  | bool => cases hv
  | number _ hv' =>
    rcases hv' with ⟨-, -, rfl⟩ | ⟨-, x, -, rfl⟩ <;> cases hv
  | string => cases hv
  | singleString => cases hv
  | emptyArray => exact ⟨_, _, [], rfl, .inr rfl, .inr rfl⟩
  | array h htrail =>
    exact ⟨_, _, _, by rw [← List.append_assoc], .inr rfl, .inr rfl⟩
  | emptyObject => exact ⟨_, _, [], rfl, .inl rfl, .inl rfl⟩
  | object h htrail =>
    exact ⟨_, _, _, by rw [← List.append_assoc], .inl rfl, .inl rfl⟩

end SourcePress.Json

namespace SourcePress.Detection

open Json

variable [Platform] {v : Json} {t : Text}

/-- A strict document of a container begins with a brace or a bracket. -/
theorem beginsContainer_of_document (h : Document .none v t) (hv : isContainer v = true) :
    beginsContainer t = true := by
  obtain ⟨ts, hderives, hwoven⟩ := h
  obtain ⟨opening, closing, us, rfl, hopening, -⟩ := hderives.exists_brackets hv
  obtain ⟨gap, behind, rfl, hgap, -⟩ := hwoven.exists_gap
  rw [beginsContainer, List.dropWhile_append_of_pos hgap]
  rcases hopening with rfl | rfl <;> rfl

/-- A strict document of a container is not blank. -/
theorem isBlank_of_document (h : Document .none v t) (hv : isContainer v = true) :
    t.isBlank = false := by
  obtain ⟨ts, hderives, hwoven⟩ := h
  obtain ⟨opening, closing, us, rfl, hopening, -⟩ := hderives.exists_brackets hv
  obtain ⟨gap, behind, rfl, -⟩ := hwoven.exists_gap
  refine List.all_eq_false.mpr ⟨opening, by simp [Token.text], ?_⟩
  rcases hopening with rfl | rfl <;> decide

/-- A strict document of a container ends with a brace or a bracket. -/
theorem endsContainer_of_document (h : Document .none v t) (hv : isContainer v = true) :
    endsContainer t = true := by
  obtain ⟨ts, hderives, hwoven⟩ := h
  obtain ⟨opening, closing, us, rfl, -, hclosing⟩ := hderives.exists_brackets hv
  rw [← List.cons_append] at hwoven
  obtain ⟨front, behind, rfl, hlast⟩ := hwoven.split
  obtain ⟨gap, final, rfl, -, hfinal⟩ := hlast.exists_gap
  have hspacing : ∀ c ∈ final.reverse, c.isSpacing := by
    cases hfinal with
    | nil hgap => exact fun c hc => isSpacing_of_isGap (hgap.isGap c (List.mem_reverse.mp hc))
  have hreverse : (front ++ (gap ++ ((Token.punctuation closing).text ++ final))).reverse =
      final.reverse ++ closing :: (front ++ gap).reverse := by
    simp [Token.text]
  rw [endsContainer, hreverse, List.dropWhile_append_of_pos hspacing]
  rcases hclosing with rfl | rfl <;> rfl

/-- In a strict document with a member in it a quoted key is found. -/
theorem quotedKey_of_document (h : Document .none v t) (hv : v.HasMember) :
    quotedKey.isIn t = true := by
  obtain ⟨ts, hderives, hwoven⟩ := h
  obtain ⟨content, before, after, rfl⟩ := hderives.exists_key hv
  rw [List.append_assoc] at hwoven
  obtain ⟨front, rest, rfl, hkey⟩ := hwoven.split
  obtain ⟨gap, rest, rfl, -, hcolon⟩ := hkey.exists_gap
  obtain ⟨gap', behind, rfl, hgap', -⟩ := hcolon.exists_gap
  have hfound := quotedKey_isIn (front ++ gap) content hgap' behind
  simpa [Token.text, Lexis.Quote.literal, Lexis.Quote.point] using hfound

/-- A strict document with a member in it has three features of JSON. -/
theorem three_le_jsonFeatureCount (h : Document .none v t) (hv : isContainer v = true)
    (hmember : v.HasMember) : 3 ≤ jsonFeatureCount t := by
  rw [jsonFeatureCount, beginsContainer_of_document h hv, endsContainer_of_document h hv,
    quotedKey_of_document h hmember]
  simp only [List.count_cons_self]
  omega

end SourcePress.Detection
