import SourcePress.Proofs.Repair.Lexed

/-!
# The literals and the significant code points of a text

The string literals of a text are its segments in string regions. They can be read off from the
lexemes, since a construct is a lexeme and a segment alike. So can the live code points that are
not blank.
-/

namespace SourcePress.Repair

open Lexis

/-- The string literals of a text in order, each with its quote. -/
def stringSegments (t : Text) : List (Quote × Text) :=
  (segments t).filterMap fun s => s.region.quote?.map fun q => (q, s.text)

/-- The live code points of a text that are not blank, in order. -/
def significant (t : Text) : Text := ((scan t).filterMap Mark.live?).filter fun c => !c.isBlank

/-- True of a longest run of live key characters of a text. -/
def IsLiveRun [Alphabet] (t w : Text) : Prop :=
  ∃ front back : List Mark, scan t = front ++ w.map live ++ back ∧ w ≠ [] ∧
    (∀ c ∈ w, isKeyPoint c) ∧ (∀ m ∈ front.getLast?, isKeyMark m = false) ∧
      ∀ m ∈ back.head?, isKeyMark m = false

/-- The string literal that a run of marks is. -/
def literal? (run : List Mark) : Option (Quote × Text) :=
  (run.head?.bind fun m => m.region.quote?).map fun q => (q, points run)

/-- The significant code points of lexemes. -/
def significantIn (ls : List Lexeme) : Text :=
  (ls.flatten.filterMap Mark.live?).filter fun c => !c.isBlank

@[simp] theorem significantIn_append (ls ms : List Lexeme) :
    significantIn (ls ++ ms) = significantIn ls ++ significantIn ms := by
  simp [significantIn]

@[simp] theorem literal?_point (c : CodePoint) : literal? [live c] = none := rfl

@[simp] theorem literal?_word (w : Text) : literal? (w.map live) = none := by
  cases w <;> rfl

@[simp] theorem literal?_construct (r : Region) (c : CodePoint) (t : Text) :
    literal? (r.construct (c :: t)) = r.quote?.map fun q => (q, c :: t) := by
  rw [literal?, Region.points_construct]
  rfl

/-- The string segments are the runs that are literals. -/
theorem stringSegments_segmentsAt (start : Nat) (runs : List (List Mark)) :
    ((segmentsAt start runs).filterMap fun s => s.region.quote?.map fun q => (q, s.text)) =
      runs.filterMap literal? := by
  induction runs generalizing start with
  | nil => rfl
  | cons run runs ih =>
    cases run with
    | nil => rw [segmentsAt, ih]; rfl
    | cons m run => rw [segmentsAt, List.filterMap_cons, List.filterMap_cons, ih]; rfl

/-- A live mark in front adds no literal. -/
theorem literals_cons_live {m : Mark} (hm : m.region = .code) (ms : List Mark) :
    (runsOf continues (m :: ms)).filterMap literal? =
      (runsOf continues ms).filterMap literal? := by
  have hnone : ∀ run, literal? (m :: run) = none := by
    intro run
    simp [literal?, hm, Region.quote?]
  rw [runsOf]
  unfold consRun
  split
  · next b run runs heq =>
    split
    · next hjoined =>
      have hb : b.region = .code := by
        cases hr : b.region <;> simp_all [continues, Region.alike]
      have hlive : literal? (b :: run) = none := by
        simp [literal?, hb, Region.quote?]
      rw [heq, List.filterMap_cons, hnone, List.filterMap_cons, hlive]
    · rw [heq, List.filterMap_cons, hnone]
  · rw [List.filterMap_cons, hnone]

/-- Live marks in front add no literals. -/
theorem literals_append_live (w : Text) (ms : List Mark) :
    (runsOf continues (w.map live ++ ms)).filterMap literal? =
      (runsOf continues ms).filterMap literal? := by
  induction w with
  | nil => rfl
  | cons c w ih => rw [List.map_cons, List.cons_append, literals_cons_live rfl, ih]

/-- A whole construct is one segment. -/
theorem isChain_continues (r : Region) (t : Text) :
    (r.construct t).IsChain fun a b => continues a b := by
  have halike : r.alike r = true := by cases r <;> rfl
  refine Region.isChain_construct (fun a b ha hb hopens => ?_) t
  simp [continues, ha, hb, hopens, halike]

/-- A construct in front is a segment of its own. -/
theorem literals_append_construct [Alphabet] {r : Region} (hr : r ≠ .code) (c : CodePoint) (t : Text)
    {e : Bool} {rest : List Lexeme} (hrest : Lexed e rest) :
    (runsOf continues (r.construct (c :: t) ++ rest.flatten)).filterMap literal? =
      (literal? (r.construct (c :: t))).toList ++
        (runsOf continues rest.flatten).filterMap literal? := by
  have hapart : Apart continues (r.construct (c :: t)) rest.flatten := by
    intro x hx m hm
    have hregion : x.region = r := region_of_mem_construct (List.mem_of_getLast? hx)
    rcases hrest.head_cases m hm with hlive | hopens
    · cases r <;> simp_all [continues, Region.alike]
    · simp [continues, hopens]
  rw [runsOf_append (by simp [Region.construct]) (isChain_continues r _) hapart,
    List.filterMap_cons]
  cases literal? (r.construct (c :: t)) <;> rfl

/-- The string literals of lexed lexemes are the lexemes that are literals. -/
theorem Lexed.literals [Alphabet] {e : Bool} {ls : List Lexeme} (h : Lexed e ls) :
    (runsOf continues ls.flatten).filterMap literal? = ls.filterMap literal? := by
  induction h with
  | nil => rfl
  | @point e c rest hkey hopen hrest ih =>
    rw [List.flatten_cons, List.filterMap_cons, literal?_point, ← ih]
    exact literals_cons_live rfl _
  | word hne hkey hnext hrest ih =>
    rw [List.flatten_cons, List.filterMap_cons, literal?_word, ← ih]
    exact literals_append_live _ _
  | literal hq hrest ih =>
    rw [List.flatten_cons, List.filterMap_cons, ← ih, Quote.literal,
      literals_append_construct (by simp) _ _ hrest, literal?_construct]
    rfl
  | unclosedLiteral hq =>
    rw [List.flatten_cons, List.filterMap_cons,
      literals_append_construct (by simp) _ _ (.nil false), literal?_construct]
    rfl
  | line hbody hnext hrest ih =>
    rw [List.flatten_cons, List.filterMap_cons, ← ih,
      literals_append_construct (by simp) _ _ hrest, literal?_construct]
    rfl
  | block hb hrest ih =>
    rw [List.flatten_cons, List.filterMap_cons, ← ih, blockText,
      literals_append_construct (by simp) _ _ hrest, literal?_construct]
    rfl
  | unclosedBlock hb =>
    rw [List.flatten_cons, List.filterMap_cons,
      literals_append_construct (by simp) _ _ (.nil false), literal?_construct]
    rfl

/-- The string literals of a text are those of its lexemes. -/
theorem stringSegments_eq [Alphabet] (t : Text) :
    stringSegments t = (lexemes (scan t)).filterMap literal? := by
  rw [stringSegments, segments, stringSegments_segmentsAt, ← (lexed_lexemes t).literals, flatten_lexemes]

/-- The significant code points of a text are those of its lexemes. -/
theorem significant_eq [Alphabet] (t : Text) : significant t = significantIn (lexemes (scan t)) := by
  rw [significant, significantIn, flatten_lexemes]

end SourcePress.Repair
