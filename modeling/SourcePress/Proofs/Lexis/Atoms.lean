import SourcePress.Text.Edition
import SourcePress.Proofs.Repair.Lexed

/-!
# The atoms of a text

A text that is read in live code falls into atoms: live code points, one by one, and whole string
literals and comments. Whether a sequence of atoms is what a text is read as depends only on
neighbours: on the backslash in front of an atom and on the code point behind it. So atoms can be
cut, put together and exchanged, and the scan of what comes out is known without scanning it.
-/

namespace SourcePress.Lexis

/-- A live code point or a whole construct. -/
inductive Atom where
  /-- A live code point. -/
  | point (c : CodePoint)
  /-- A string literal or a comment from its first code point to its last one. -/
  | construct (region : Region) (text : Text)
  deriving DecidableEq, Repr

namespace Atom

/-- The text of an atom. -/
def text : Atom → Text
  | point c => [c]
  | construct _ t => t

/-- The marks that a scan gives to an atom. -/
def marks : Atom → List Mark
  | point c => [Region.code.mark c]
  | construct r t => r.construct t

/-- True if what follows an atom is escaped, for an atom that is escaped itself or not. -/
def escapes (escaped : Bool) : Atom → Bool
  | point c => !escaped && c = '\\'
  | construct _ _ => false

/-- The region in which an atom leaves the scan. -/
def endRegion : Atom → Region
  | point _ => .code
  | construct _ t => (finalMode t).region

/-- True of a string literal or a block comment that its own text leaves open. -/
def isOpen : Atom → Bool
  | point _ => false
  | construct _ t => !isTerminated t

@[simp] theorem points_marks (a : Atom) : points a.marks = a.text := by
  cases a with
  | point c => rfl
  | construct r t => exact Region.points_construct r t

end Atom

/-- The text of atoms. -/
def textOf (as : List Atom) : Text := as.flatMap Atom.text

/-- The marks of atoms. -/
def marksOf (as : List Atom) : List Mark := as.flatMap Atom.marks

/-- True if what follows atoms is escaped. -/
def escapedBehind (escaped : Bool) (as : List Atom) : Bool := as.foldl Atom.escapes escaped

@[simp] theorem textOf_nil : textOf [] = [] := rfl

@[simp] theorem textOf_cons (a : Atom) (as : List Atom) : textOf (a :: as) = a.text ++ textOf as :=
  rfl

@[simp] theorem textOf_append (as bs : List Atom) : textOf (as ++ bs) = textOf as ++ textOf bs :=
  List.flatMap_append

@[simp] theorem textOf_map_point (t : Text) : textOf (t.map .point) = t := by
  simp [textOf, List.flatMap_map, Atom.text]

@[simp] theorem marksOf_nil : marksOf [] = [] := rfl

@[simp] theorem marksOf_cons (a : Atom) (as : List Atom) :
    marksOf (a :: as) = a.marks ++ marksOf as := rfl

@[simp] theorem marksOf_append (as bs : List Atom) :
    marksOf (as ++ bs) = marksOf as ++ marksOf bs := List.flatMap_append

@[simp] theorem escapedBehind_nil (e : Bool) : escapedBehind e [] = e := rfl

@[simp] theorem escapedBehind_cons (e : Bool) (a : Atom) (as : List Atom) :
    escapedBehind e (a :: as) = escapedBehind (a.escapes e) as := rfl

@[simp] theorem points_marksOf (as : List Atom) : points (marksOf as) = textOf as := by
  induction as with
  | nil => rfl
  | cons a as ih => rw [marksOf_cons, points_append, Atom.points_marks, ih, textOf_cons]

/-- The sequences of atoms that a text is read as in live code, before a next code point. The flag
says that the first code point is escaped. -/
inductive Atomic (next : Option CodePoint) : Bool → List Atom → Prop
  /-- Nothing is read from nothing. -/
  | nil (e : Bool) : Atomic next e []
  /-- A live code point opens nothing, or is escaped. -/
  | point {e : Bool} {c : CodePoint} {rest : List Atom}
      (hopen : e = true ∨ Mode.opening? c ((textOf rest).head?.or next) = none)
      (hrest : Atomic next (!e && c = '\\') rest) : Atomic next e (.point c :: rest)
  /-- A string literal is whole. -/
  | literal {q : Quote} {content : Text} {rest : List Atom} (h : q.Encloses content)
      (hrest : Atomic next false rest) :
      Atomic next false (.construct (.string q) (q.literal content) :: rest)
  /-- A string literal that nothing closes ends the text. -/
  | unclosedLiteral {q : Quote} {content : Text} {e : Bool}
      (h : q.escapeAfter? false content = some e) (hend : next = none) :
      Atomic next false [.construct (.string q) (q.point :: content)]
  /-- A line comment goes on to the end of its line. -/
  | line {body : Text} {rest : List Atom} (hbody : ∀ c ∈ body, c.isLineEnd = false)
      (hnext : ∀ c ∈ (textOf rest).head?.or next, c.isLineEnd) (hrest : Atomic next false rest) :
      Atomic next false (.construct .lineComment ('/' :: '/' :: body) :: rest)
  /-- A block comment is whole. -/
  | block {body : Text} {rest : List Atom} (h : StaysInBlock (body ++ [.scalar '*']))
      (hrest : Atomic next false rest) :
      Atomic next false (.construct .blockComment (blockText body) :: rest)
  /-- A block comment that nothing closes ends the text. -/
  | unclosedBlock {body : Text} (h : StaysInBlock body) (hend : next = none) :
      Atomic next false [.construct .blockComment ('/' :: '*' :: body)]

/-- Live code points stand before atoms if each of them opens nothing or is escaped. -/
theorem Atomic.points_append {next : Option CodePoint} {e : Bool} {w : Text} {rest : List Atom}
    (hopen : ∀ front c back, w = front ++ c :: back →
      escapedBehind e (front.map .point) = true ∨
        Mode.opening? c ((back ++ textOf rest).head?.or next) = none)
    (hrest : Atomic next (escapedBehind e (w.map .point)) rest) :
    Atomic next e (w.map .point ++ rest) := by
  induction w generalizing e with
  | nil => exact hrest
  | cons c w ih =>
    refine .point ?_ (ih (fun front d back hw => ?_) hrest)
    · simpa using hopen [] c w rfl
    · exact hopen (c :: front) d back (by rw [hw]; rfl)

/-- Nothing is escaped behind a text that ends in no backslash. -/
theorem escapedBehind_points {e : Bool} {w : Text} (hne : w ≠ [])
    (hw : ∀ c ∈ w, c ≠ .scalar '\\') : escapedBehind e (w.map .point) = false := by
  obtain ⟨front, c, rfl⟩ := (List.eq_nil_or_concat' w).resolve_left hne
  have hc : c ≠ .scalar '\\' := hw c (by simp)
  simp [escapedBehind, List.foldl_append, Atom.escapes, hc]

@[simp] theorem marksOf_map_point (t : Text) :
    marksOf (t.map .point) = t.map Region.code.mark := by
  induction t with
  | nil => rfl
  | cons c t ih => exact congrArg _ ih

/-- A lexed sequence is read point by point where it is live. -/
theorem exists_atomic_of_lexed [Alphabet] {e : Bool} {ls : List Repair.Lexeme} (h : Repair.Lexed e ls) :
    ∃ as, Atomic none e as ∧ marksOf as = ls.flatten := by
  have htext : ∀ {as : List Atom} {ls : List Repair.Lexeme}, marksOf as = ls.flatten →
      textOf as = Repair.spelled ls := by
    intro as ls hmarks
    rw [← points_marksOf, hmarks]
    rfl
  induction h with
  | nil e => exact ⟨[], .nil e, rfl⟩
  | point _ hopen _ ih =>
    obtain ⟨as, has, hmarks⟩ := ih
    refine ⟨_, .point ?_ has, congrArg _ hmarks⟩
    rwa [Option.or_none, htext hmarks]
  | @word e w rest hne hkey _ _ ih =>
    obtain ⟨as, has, hmarks⟩ := ih
    have hescape : escapedBehind e (w.map .point) = false :=
      escapedBehind_points hne fun c hc => Repair.ne_of_isKeyPoint (hkey c hc) (by decide)
    refine ⟨w.map .point ++ as, .points_append (fun front c back hw => .inr ?_) ?_, ?_⟩
    · exact Repair.opening?_of_isKeyPoint (hkey c (by simp [hw])) _
    · rwa [hescape]
    · rw [marksOf_append, marksOf_map_point, hmarks, List.flatten_cons]
  | literal hq _ ih =>
    obtain ⟨as, has, hmarks⟩ := ih
    exact ⟨_, .literal hq has, congrArg _ hmarks⟩
  | unclosedLiteral hq => exact ⟨_, .unclosedLiteral hq rfl, rfl⟩
  | line hbody hnext _ ih =>
    obtain ⟨as, has, hmarks⟩ := ih
    refine ⟨_, .line hbody ?_ has, congrArg _ hmarks⟩
    rwa [Option.or_none, htext hmarks]
  | block hb _ ih =>
    obtain ⟨as, has, hmarks⟩ := ih
    exact ⟨_, .block hb has, congrArg _ hmarks⟩
  | unclosedBlock hb => exact ⟨_, .unclosedBlock hb rfl, rfl⟩

/-- Each text is read as atoms. -/
theorem exists_atomic (t : Text) : ∃ as, Atomic none false as ∧ textOf as = t := by
  -- Words are atoms one by one, so any alphabet will do to find them.
  let _ := Alphabet.edition14
  obtain ⟨ls, hls, rfl⟩ := Repair.exists_lexed false t
  obtain ⟨as, has, hmarks⟩ := exists_atomic_of_lexed hls
  exact ⟨as, has, by rw [← points_marksOf, hmarks]; rfl⟩

namespace Atomic

variable {next : Option CodePoint} {e : Bool} {as bs : List Atom}

/-- Each atom has a code point. -/
theorem eq_nil_of_textOf (h : Atomic next e as) (ht : textOf as = []) : as = [] := by
  cases h <;> simp_all [Atom.text, Quote.literal, blockText]

/-- The first part of a sequence is read before the head of the second one, and the second part as
the first one leaves it. -/
theorem of_append (h : Atomic next e (as ++ bs)) :
    Atomic ((textOf bs).head?.or next) e as ∧ Atomic next (escapedBehind e as) bs := by
  induction as generalizing e with
  | nil => exact ⟨.nil e, h⟩
  | cons a as ih =>
    rw [List.cons_append] at h
    generalize hl : as ++ bs = l at h
    have hhead : ∀ n : Option CodePoint, (textOf l).head?.or n =
        (textOf as).head?.or ((textOf bs).head?.or n) := by
      intro n
      rw [← hl, textOf_append, List.head?_append, Option.or_assoc]
    cases h with
    | point hopen hrest =>
      subst hl
      exact ⟨.point (hhead next ▸ hopen) (ih hrest).1, (ih hrest).2⟩
    | literal hq hrest =>
      subst hl
      exact ⟨.literal hq (ih hrest).1, (ih hrest).2⟩
    | unclosedLiteral hq hend =>
      obtain ⟨rfl, rfl⟩ := List.append_eq_nil_iff.mp hl
      exact ⟨.unclosedLiteral hq hend, .nil _⟩
    | line hbody hnext hrest =>
      subst hl
      exact ⟨.line hbody (hhead next ▸ hnext) (ih hrest).1, (ih hrest).2⟩
    | block hb hrest =>
      subst hl
      exact ⟨.block hb (ih hrest).1, (ih hrest).2⟩
    | unclosedBlock hb hend =>
      obtain ⟨rfl, rfl⟩ := List.append_eq_nil_iff.mp hl
      exact ⟨.unclosedBlock hb hend, .nil _⟩

/-- What follows an atom is read as the atom leaves it. -/
theorem tail {a : Atom} (h : Atomic next e (a :: as)) : Atomic next (a.escapes e) as := by
  rw [← List.singleton_append] at h
  exact h.of_append.2

/-- Two sequences are read one behind the other if the first one is read before the head of the
second, and the second as the first leaves it. -/
theorem append (h : Atomic ((textOf bs).head?.or next) e as)
    (h' : Atomic next (escapedBehind e as) bs) : Atomic next e (as ++ bs) := by
  have hhead : ∀ rest : List Atom, (textOf (rest ++ bs)).head?.or next =
      (textOf rest).head?.or ((textOf bs).head?.or next) := by
    intro rest
    rw [textOf_append, List.head?_append, Option.or_assoc]
  have hnil : (textOf bs).head?.or next = none → bs = [] ∧ next = none := by
    intro hnone
    obtain ⟨hbs, hnext⟩ := Option.or_eq_none_iff.mp hnone
    exact ⟨h'.eq_nil_of_textOf (List.head?_eq_none_iff.mp hbs), hnext⟩
  induction h with
  | nil e => exact h'
  | @point e c rest hopen hrest ih => exact .point (hhead rest ▸ hopen) (ih h')
  | literal hq hrest ih => exact .literal hq (ih h')
  | unclosedLiteral hq hend =>
    obtain ⟨rfl, rfl⟩ := hnil hend
    exact .unclosedLiteral hq rfl
  | @line body rest hbody hnext hrest ih => exact .line hbody (hhead rest ▸ hnext) (ih h')
  | block hb hrest ih => exact .block hb (ih h')
  | unclosedBlock hb hend =>
    obtain ⟨rfl, rfl⟩ := hnil hend
    exact .unclosedBlock hb rfl

/-- A text that is read as atoms is scanned to their marks. -/
theorem scanFrom_textOf (h : Atomic none e as) :
    scanFrom (.code e) (textOf as) = marksOf as := by
  induction h with
  | nil e => rfl
  | point hopen _ ih =>
    rw [Option.or_none] at hopen
    rw [textOf_cons, Atom.text, List.singleton_append, scanFrom_point hopen, ih]
    rfl
  | literal hq _ ih =>
    rw [textOf_cons, Atom.text, scanFrom_literal hq, ih]
    rfl
  | unclosedLiteral hq =>
    rw [textOf_cons, textOf_nil, Atom.text, List.append_nil, scanFrom_unclosed hq]
    exact (List.append_nil _).symm
  | line hbody hnext _ ih =>
    rw [Option.or_none] at hnext
    rw [textOf_cons, Atom.text, scanFrom_line hbody hnext, ih]
    rfl
  | block hb _ ih =>
    rw [textOf_cons, Atom.text, scanFrom_block hb, ih]
    rfl
  | unclosedBlock hb =>
    rw [textOf_cons, textOf_nil, Atom.text, List.append_nil, scanFrom_unclosedBlock hb]
    exact (List.append_nil _).symm

/-- The marks of a text are those of the atoms that it is read as. -/
theorem scan_textOf (h : Atomic none false as) : scan (textOf as) = marksOf as :=
  h.scanFrom_textOf

/-- What follows an atom is read as the atom leaves it, and the atom is not open. -/
theorem modeAfter_cons {a : Atom} (h : Atomic none e (a :: as)) (hne : as ≠ []) :
    a.isOpen = false ∧
      modeAfter (.code e) (textOf (a :: as)) = modeAfter (.code (a.escapes e)) (textOf as) := by
  rw [textOf_cons]
  cases h with
  | point hopen _ =>
    rw [Option.or_none] at hopen
    rw [Atom.text, List.singleton_append]
    exact ⟨rfl, modeAfter_point hopen⟩
  | literal hq _ =>
    refine ⟨?_, modeAfter_literal hq _⟩
    rw [Atom.isOpen, isTerminated, finalMode_literal hq]
    rfl
  | unclosedLiteral => exact absurd rfl hne
  | line hbody hnext hrest =>
    rw [Option.or_none] at hnext
    refine ⟨?_, modeAfter_line hbody hnext (mt hrest.eq_nil_of_textOf hne)⟩
    rw [Atom.isOpen, isTerminated, finalMode_line hbody]
    rfl
  | block hb _ =>
    refine ⟨?_, modeAfter_block hb _⟩
    rw [Atom.isOpen, isTerminated, finalMode_block hb]
    rfl
  | unclosedBlock => exact absurd rfl hne

/-- A single atom leads to its own end. -/
theorem modeAfter_singleton {a : Atom} (h : Atomic none e [a]) :
    (modeAfter (.code e) (textOf [a])).region = a.endRegion ∧
      (modeAfter (.code e) (textOf [a])).isTerminated = !a.isOpen := by
  rw [textOf_cons, textOf_nil, List.append_nil]
  cases h with
  | point hopen _ =>
    rw [Option.or_none, textOf_nil, List.head?_nil] at hopen
    rw [Atom.text, modeAfter, List.head?_nil, (read_point hopen).2]
    exact ⟨rfl, rfl⟩
  | _ => exact ⟨rfl, (Bool.not_not _).symm⟩

/-- A text ends in the region of its last atom. -/
theorem region_modeAfter (h : Atomic none e as) :
    (modeAfter (.code e) (textOf as)).region = (as.getLast?.map Atom.endRegion).getD .code := by
  induction as generalizing e with
  | nil => rfl
  | cons a as ih =>
    cases as with
    | nil => exact h.modeAfter_singleton.1
    | cons b as =>
      have hrest : Atomic none (a.escapes e) (b :: as) := h.tail
      rw [(h.modeAfter_cons (List.cons_ne_nil b as)).2, ih hrest, List.getLast?_cons_cons]

/-- A text is terminated if none of its atoms is open. -/
theorem isTerminated_modeAfter (h : Atomic none e as) :
    (modeAfter (.code e) (textOf as)).isTerminated = !as.any Atom.isOpen := by
  induction as generalizing e with
  | nil => rfl
  | cons a as ih =>
    cases as with
    | nil => rw [h.modeAfter_singleton.2, List.any_cons, List.any_nil, Bool.or_false]
    | cons b as =>
      have hrest : Atomic none (a.escapes e) (b :: as) := h.tail
      obtain ⟨hopen, hstep⟩ := h.modeAfter_cons (List.cons_ne_nil b as)
      have hany : (a :: b :: as).any Atom.isOpen = (b :: as).any Atom.isOpen := by
        rw [List.any_cons, hopen, Bool.false_or]
      rw [hstep, ih hrest, hany]

end Atomic

end SourcePress.Lexis
