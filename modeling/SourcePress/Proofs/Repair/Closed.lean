import SourcePress.Proofs.Repair.Lexed
import SourcePress.Repair.Quotes

/-!
# The literal that a text leaves open

A text can leave only its last construct open. So whether a string literal is closed can be told
from the literal itself, and the place where the text was left open need not be looked up.
-/

namespace SourcePress.Repair

open Lexis

/-- True of a lexeme that leads from live code back to it. -/
def isClosed (l : Lexeme) : Bool := (finalMode (points l)).region.isLive

/-- A literal between two quotes is closed. -/
theorem isClosed_literal {q : Quote} {content : Text} (h : q.Encloses content) :
    isClosed ((Region.string q).construct (q.literal content)) = true := by
  rw [isClosed, Region.points_construct, finalMode_literal h]
  rfl

/-- A literal that nothing closes is not closed. -/
theorem isClosed_unclosed {q : Quote} {content : Text} {e : Bool}
    (h : q.escapeAfter? false content = some e) :
    isClosed ((Region.string q).construct (q.point :: content)) = false := by
  rw [isClosed, Region.points_construct, finalMode_unclosed h]
  rfl

variable [Alphabet]

/-- Each lexeme has a code point. -/
theorem Lexed.spelled_ne_nil {e : Bool} {ls : List Lexeme} (h : Lexed e ls) (hne : ls ≠ []) :
    spelled ls ≠ [] := by
  cases h with
  | nil => exact absurd rfl hne
  | word hw => simpa using fun hw' => absurd hw' hw
  | _ => simp [Quote.literal, blockText]

/-- What follows a lexeme is lexed, and reading it leads to the same mode. -/
theorem Lexed.tail {e : Bool} {l : Lexeme} {rest : List Lexeme} (h : Lexed e (l :: rest))
    (hne : rest ≠ []) :
    ∃ e', Lexed e' rest ∧
      modeAfter (.code e) (spelled (l :: rest)) = modeAfter (.code e') (spelled rest) := by
  cases h with
  | point hkey hopen hrest => exact ⟨_, hrest, modeAfter_point hopen⟩
  | word hw hkey hnext hrest =>
    refine ⟨_, hrest, ?_⟩
    rw [spelled_cons, points_map_mark, modeAfter_word hw hkey]
  | literal hq hrest =>
    refine ⟨_, hrest, ?_⟩
    rw [spelled_cons, Region.points_construct, modeAfter_literal hq]
  | unclosedLiteral => exact absurd rfl hne
  | line hbody hnext hrest =>
    refine ⟨_, hrest, ?_⟩
    rw [spelled_cons, Region.points_construct,
      modeAfter_line hbody hnext (hrest.spelled_ne_nil hne)]
  | block hb hrest =>
    refine ⟨_, hrest, ?_⟩
    rw [spelled_cons, Region.points_construct, modeAfter_block hb]
  | unclosedBlock => exact absurd rfl hne

/-- What follows some lexemes is lexed, and reading it leads to the same mode. -/
theorem Lexed.suffix {e : Bool} {front rest : List Lexeme} (h : Lexed e (front ++ rest))
    (hne : rest ≠ []) :
    ∃ e', Lexed e' rest ∧
      modeAfter (.code e) (spelled (front ++ rest)) = modeAfter (.code e') (spelled rest) := by
  induction front generalizing e with
  | nil => exact ⟨e, h, rfl⟩
  | cons l front ih =>
    obtain ⟨e', hrest, hmode⟩ := Lexed.tail h (by simpa using fun _ => hne)
    obtain ⟨e'', hrest', hmode'⟩ := ih hrest
    exact ⟨e'', hrest', hmode.trans hmode'⟩

/-- A text in which nothing opens ends in live code. -/
theorem Lexed.isLive_of_opens {e : Bool} {ls : List Lexeme} (h : Lexed e ls)
    (hopens : ∀ m ∈ ls.flatten, m.opens = false) :
    (modeAfter (.code e) (spelled ls)).region.isLive = true := by
  induction h with
  | nil => rfl
  | point hkey hopen hrest ih =>
    rw [spelled_point, modeAfter_point hopen]
    exact ih fun m hm => hopens m (by simp [hm])
  | @word e w rest hw hkey hnext hrest ih =>
    rw [spelled_cons, points_map_mark, modeAfter_word hw hkey]
    exact ih fun m hm => hopens m (by simp [hm])
  | @literal q content =>
    exact absurd (hopens ⟨q.point, .string q, true⟩ (by simp [Region.construct, Quote.literal]))
      (by simp)
  | @unclosedLiteral q =>
    exact absurd (hopens ⟨q.point, .string q, true⟩ (by simp [Region.construct])) (by simp)
  | line =>
    exact absurd (hopens ⟨.scalar '/', .lineComment, true⟩ (by simp [Region.construct])) (by simp)
  | block =>
    exact absurd (hopens ⟨.scalar '/', .blockComment, true⟩
      (by simp [Region.construct, blockText])) (by simp)
  | unclosedBlock =>
    exact absurd (hopens ⟨.scalar '/', .blockComment, true⟩ (by simp [Region.construct]))
      (by simp)

omit [Alphabet] in
/-- A construct opens with its first mark and with no other. -/
theorem lastOpening?_construct (r : Region) (c : CodePoint) (t : Text) :
    lastOpening? (r.construct (c :: t)) = some 0 := by
  have htail : lastOpening? (t.map r.mark) = none :=
    lastOpening?_eq_none (by simp)
  have hsplit : r.construct (c :: t) = [⟨c, r, true⟩] ++ t.map r.mark := rfl
  rw [hsplit, lastOpening?_append, htail]
  rfl

/-- A single-quoted literal begins where a text is left open exactly if it is not closed. -/
theorem openStart?_eq_iff {front rest : List Lexeme} {l : Lexeme}
    (h : Lexed false (front ++ l :: rest)) (hsingle : Lexeme.isSingleQuoted l) :
    openStart? (spelled (front ++ l :: rest)) = some front.flatten.length ↔
      isClosed l = false := by
  obtain ⟨e, hl, hmode⟩ := h.suffix (List.cons_ne_nil l rest)
  have hscan : scan (spelled (front ++ l :: rest)) = front.flatten ++ (l ++ rest.flatten) := by
    rw [scan, Mode.start, h.scanFrom_spelled, List.flatten_append, List.flatten_cons]
  have hfinal : finalMode (spelled (front ++ l :: rest)) =
      modeAfter (.code e) (spelled (l :: rest)) := hmode
  cases hl with
  | point => simp [Lexeme.isSingleQuoted] at hsingle
  | @word _ w _ hw =>
    obtain ⟨c, w, rfl⟩ := List.exists_cons_of_ne_nil hw
    simp [Lexeme.isSingleQuoted] at hsingle
  | line => simp [Lexeme.isSingleQuoted, Region.construct] at hsingle
  | block => simp [Lexeme.isSingleQuoted, Region.construct, blockText] at hsingle
  | unclosedBlock => simp [Lexeme.isSingleQuoted, Region.construct] at hsingle
  | @literal q content _ hq hrest =>
    rw [isClosed_literal hq, openStart?, hfinal, hscan, spelled_cons, Region.points_construct,
      modeAfter_literal hq]
    refine ⟨fun hopen => ?_, fun hclosed => absurd hclosed (by simp)⟩
    -- if the text ends open, its last construct opened behind the closed literal
    split at hopen
    · exact absurd hopen (by simp)
    · next hlive =>
      obtain ⟨j, hj⟩ : ∃ j, lastOpening? rest.flatten = some j := by
        refine Option.ne_none_iff_exists'.mp fun hnone => hlive ?_
        exact hrest.isLive_of_opens (opens_eq_false_of_lastOpening? hnone)
      rw [lastOpening?_append, lastOpening?_append, hj] at hopen
      simp [Region.construct, Quote.literal] at hopen
  | @unclosedLiteral q content e' hq =>
    have hlive : (finalMode (spelled (front ++ [(Region.string q).construct
        (q.point :: content)]))).region.isLive = false := by
      rw [hfinal, spelled_cons, spelled_nil, List.append_nil, Region.points_construct,
        modeAfter_unclosed hq]
      rfl
    rw [isClosed_unclosed hq, openStart?, hlive, hscan, List.flatten_nil, List.append_nil,
      lastOpening?_append, lastOpening?_construct]
    simp

end SourcePress.Repair
