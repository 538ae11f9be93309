import SourcePress.Proofs.Lexis.Trimming
import SourcePress.Proofs.Repair.Shape
import SourcePress.Repair.Comments

/-!
# Lexemes without comments

Of a line comment nothing is left and of a block comment a space. The other lexemes stay whole and
apart: a line comment ends where a line does, and a space is nobody's part.
-/

namespace SourcePress.Repair

open Lexis

/-- What is left of a lexeme when comments are taken out. -/
def uncommented (l : Lexeme) : List Lexeme :=
  match l.head?.map Mark.region with
  | some .lineComment => []
  | some .blockComment => [[live (.scalar ' ')]]
  | _ => [l]

/-- Lexemes without comments. -/
def uncomment (ls : List Lexeme) : List Lexeme := ls.flatMap uncommented

@[simp] theorem uncomment_nil : uncomment [] = [] := rfl

@[simp] theorem uncomment_cons (l : Lexeme) (ls : List Lexeme) :
    uncomment (l :: ls) = uncommented l ++ uncomment ls := List.flatMap_cons

@[simp] theorem uncommented_point (c : CodePoint) : uncommented [live c] = [[live c]] := rfl

@[simp] theorem uncommented_word (w : Text) : uncommented (w.map live) = [w.map live] := by
  cases w <;> rfl

@[simp] theorem uncommented_string (q : Quote) (t : Text) :
    uncommented ((Region.string q).construct t) = [(Region.string q).construct t] := by
  cases t <;> rfl

@[simp] theorem uncommented_line (c : CodePoint) (t : Text) :
    uncommented (Region.lineComment.construct (c :: t)) = [] := rfl

@[simp] theorem uncommented_block (c : CodePoint) (t : Text) :
    uncommented (Region.blockComment.construct (c :: t)) = [[live (.scalar ' ')]] := rfl

/-- No quote ends a line. -/
theorem isLineEnd_point (q : Quote) : q.point.isLineEnd = false := by
  cases q <;> rfl

/-- What lexemes without comments begin with stood in front before, or it is spacing. -/
theorem head?_uncomment [Alphabet] {e : Bool} {ls : List Lexeme} (h : Lexed e ls) :
    ∀ m ∈ (uncomment ls).flatten.head?,
      m ∈ ls.flatten.head? ∨ ∃ c, m = live c ∧ c.isSpacing = true := by
  intro m hm
  cases h with
  | nil => exact .inl hm
  | point => exact .inl hm
  | word hne =>
    obtain ⟨c, w, rfl⟩ := List.exists_cons_of_ne_nil hne
    exact .inl hm
  | literal => exact .inl hm
  | unclosedLiteral => exact .inl hm
  | @line body rest hbody hnext hrest =>
    rw [uncomment_cons, uncommented_line, List.nil_append] at hm
    cases hrest with
    | nil => cases hm
    | @point _ c rest =>
      cases hm
      exact .inr ⟨c, rfl, CodePoint.isSpacing_of_isLineEnd (hnext c rfl)⟩
    | @word _ w rest hne hkey =>
      obtain ⟨c, w, rfl⟩ := List.exists_cons_of_ne_nil hne
      have hblank := CodePoint.isBlank_of_isLineEnd (hnext c rfl)
      have hc := hkey c List.mem_cons_self
      rw [isKeyPoint_of_isBlank hblank] at hc
      cases hc
    | @literal q => exact absurd (hnext q.point rfl) (by rw [isLineEnd_point]; decide)
    | @unclosedLiteral q => exact absurd (hnext q.point rfl) (by rw [isLineEnd_point]; decide)
    | line => exact absurd (hnext (.scalar '/') rfl) (by decide)
    | block => exact absurd (hnext (.scalar '/') rfl) (by decide)
    | unclosedBlock => exact absurd (hnext (.scalar '/') rfl) (by decide)
  | block =>
    cases hm
    exact .inr ⟨.scalar ' ', rfl, by decide⟩
  | unclosedBlock =>
    cases hm
    exact .inr ⟨.scalar ' ', rfl, by decide⟩

/-- A code point that opens nothing before a text opens nothing before another one that begins alike
or with a blank. -/
theorem opening?_of_head? {ls ls' : List Lexeme} {c : CodePoint}
    (hhead : ∀ m ∈ ls'.flatten.head?, m ∈ ls.flatten.head? ∨ ∃ d, m = live d ∧ d.isBlank = true)
    (hopen : Mode.opening? c (spelled ls).head? = none) :
    Mode.opening? c (spelled ls').head? = none := by
  have hq := ofPoint?_of_opening? hopen
  rw [head?_spelled]
  cases hm : ls'.flatten.head? with
  | none => exact opening?_of_next hq (by simp) (by simp)
  | some m =>
    rcases hhead m hm with hm' | ⟨d, rfl, hd⟩
    · rw [← hm', ← head?_spelled]
      exact hopen
    · refine opening?_of_next hq (fun hsolidus => ?_) (fun hasterisk => ?_)
      · exact CodePoint.ne_of_isBlank hd (by decide) (Option.some.inj hsolidus)
      · exact CodePoint.ne_of_isBlank hd (by decide) (Option.some.inj hasterisk)

/-- A code point that opens nothing there opens nothing once the comments are gone. -/
theorem opening?_uncomment [Alphabet] {e : Bool} {ls : List Lexeme} (h : Lexed e ls) {c : CodePoint}
    (hopen : Mode.opening? c (spelled ls).head? = none) :
    Mode.opening? c (spelled (uncomment ls)).head? = none := by
  refine opening?_of_head? (fun m hm => ?_) hopen
  exact (head?_uncomment h m hm).imp_right fun ⟨d, hd, hspacing⟩ =>
    ⟨d, hd, CodePoint.isBlank_of_isSpacing hspacing⟩

/-- Lexemes without comments are lexed. -/
theorem Lexed.uncomment [Alphabet] {e : Bool} {ls : List Lexeme} (h : Lexed e ls) :
    Lexed e (uncomment ls) := by
  induction h with
  | nil e => exact .nil e
  | point hkey hopen hrest ih =>
    rw [uncomment_cons, uncommented_point]
    refine .point hkey ?_ ih
    rcases hopen with he | hopen
    · exact .inl he
    · exact .inr (opening?_uncomment hrest hopen)
  | word hne hkey hnext hrest ih =>
    rw [uncomment_cons, uncommented_word]
    refine .word hne hkey ?_ ih
    intro m hm
    rcases head?_uncomment hrest m hm with hm' | ⟨c, rfl, hc⟩
    · exact hnext m hm'
    · exact isKeyPoint_of_isBlank (CodePoint.isBlank_of_isSpacing hc)
  | literal hq _ ih =>
    rw [uncomment_cons, uncommented_string]
    exact .literal hq ih
  | unclosedLiteral hq =>
    rw [uncomment_cons, uncommented_string]
    exact .unclosedLiteral hq
  | line _ _ _ ih => exact ih
  | block _ _ ih =>
    have hopen := opening?_of_plain (c := .scalar ' ') (by decide) (by decide)
    exact .point (isKeyPoint_of_isAsciiMark (by decide)) (.inr (hopen _)) ih
  | unclosedBlock =>
    have hopen := opening?_of_plain (c := .scalar ' ') (by decide) (by decide)
    exact .point (isKeyPoint_of_isAsciiMark (by decide)) (.inr (hopen _)) (.nil _)

/-- Live marks stay when comments are taken out. -/
theorem filterMap_withoutComment_live (t : Text) :
    (t.map live).filterMap withoutComment = t := by
  induction t with
  | nil => rfl
  | cons c t ih =>
    rw [List.map_cons, List.filterMap_cons]
    exact congrArg _ ih

/-- Constructs that are no comments stay when comments are taken out. -/
theorem filterMap_withoutComment_construct {r : Region} (hr : r.isComment = false) (t : Text) :
    (r.construct t).filterMap withoutComment = t := by
  have hkeep : ∀ m : Mark, m.region = r → withoutComment m = some m.point := by
    intro m hm
    rw [withoutComment, Mark.isComment, hm, hr]
    rfl
  cases t with
  | nil => rfl
  | cons c t =>
    rw [Region.construct, List.filterMap_cons, hkeep _ rfl]
    have htail : (t.map r.mark).filterMap withoutComment = t := by
      induction t with
      | nil => rfl
      | cons d t ih => rw [List.map_cons, List.filterMap_cons, hkeep _ rfl, ih]; rfl
    rw [htail]

/-- Of a comment only what it leaves in its place is kept. -/
theorem filterMap_withoutComment_comment {r : Region} (hr : r.isComment = true) (c : CodePoint)
    (t : Text) : (r.construct (c :: t)).filterMap withoutComment =
      spelled (uncommented (r.construct (c :: t))) := by
  have htail : (t.map r.mark).filterMap withoutComment = [] := by
    refine List.filterMap_eq_nil_iff.mpr fun m hm => ?_
    obtain ⟨d, _, rfl⟩ := List.mem_map.mp hm
    simp [withoutComment, Mark.isComment, hr]
  cases r with
  | code => cases hr
  | string => cases hr
  | lineComment =>
    rw [Region.construct, List.filterMap_cons, htail]
    rfl
  | blockComment =>
    rw [Region.construct, List.filterMap_cons, htail]
    rfl

/-- Taking comments out of marks is taking them out of lexemes. -/
theorem filterMap_withoutComment [Alphabet] {ls : List Lexeme} (hs : ∀ l ∈ ls, Shape l) :
    ls.flatten.filterMap withoutComment = spelled (uncomment ls) := by
  induction ls with
  | nil => rfl
  | cons l ls ih =>
    have hi := ih fun l hl => hs l (List.mem_cons_of_mem _ hl)
    rw [List.flatten_cons, List.filterMap_append, uncomment_cons, spelled_append, hi]
    cases hs l List.mem_cons_self with
    | @point c hkey => rfl
    | @word w hne hkey =>
      rw [filterMap_withoutComment_live, uncommented_word]
      simp
    | @construct r c t hr =>
      cases hcomment : r.isComment with
      | true => rw [filterMap_withoutComment_comment hcomment]
      | false =>
        rw [filterMap_withoutComment_construct hcomment]
        cases r with
        | code => exact absurd rfl hr
        | string q =>
          rw [uncommented_string]
          simp
        | lineComment => cases hcomment
        | blockComment => cases hcomment

/-- A text without comments is made of its lexemes without comments. -/
theorem stripComments_eq [Alphabet] (t : Text) :
    stripComments t = (spelled (uncomment (lexemes (scan t)))).trim := by
  rw [stripComments, ← filterMap_withoutComment (lexed_lexemes t).shape, flatten_lexemes]

end SourcePress.Repair
