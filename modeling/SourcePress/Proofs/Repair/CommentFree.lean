import SourcePress.Proofs.Lexis.TrimmedAtoms
import SourcePress.Proofs.Repair.Script
import SourcePress.Text.Edition

/-!
# Texts without their comments

A text that its comments were taken from is scanned to the marks that were visible in it: those
outside comments that are not blank. None of them has a new neighbour, since a line comment ends
where its line or the text does and a block comment leaves a space. The second scan finds no
comment, so there is nothing left to take out.
-/

namespace SourcePress.Repair

open Lexis

/-- The marks that are visible: those outside comments that are not blank. -/
def visible (ms : List Mark) : List Mark := ms.filter fun m => !m.isComment && !m.point.isBlank

@[simp] theorem visible_append (ms ns : List Mark) : visible (ms ++ ns) = visible ms ++ visible ns :=
  List.filter_append ms ns

/-- Blanks are not visible. -/
theorem visible_of_blank {ms : List Mark} (h : ∀ m ∈ ms, m.point.isBlank = true) :
    visible ms = [] :=
  List.filter_eq_nil_iff.mpr fun m hm => by simp [h m hm]

/-- Comments are not visible. -/
theorem visible_of_comment {ms : List Mark} (h : ∀ m ∈ ms, m.isComment = true) : visible ms = [] :=
  List.filter_eq_nil_iff.mpr fun m hm => by simp [h m hm]

/-- The significant code points of a text are its live visible ones. -/
theorem significant_eq_visible (t : Text) :
    significant t = (visible (scan t)).filterMap Mark.live? := by
  rw [significant]
  induction scan t with
  | nil => rfl
  | cons m ms ih =>
    obtain ⟨c, r, opens⟩ := m
    rw [visible] at ih ⊢
    cases hc : c.isBlank <;> cases r <;>
      simp_all [Mark.live?, Mark.isLive, Region.isLive, Mark.isComment, Region.isComment]

/-- True of marks and what is left of them if no two visible marks that are left side by side were
apart. -/
def KeepsNeighbours (ms ns : List Mark) : Prop :=
  ∀ front m n back, ns = front ++ m :: n :: back → m.point.isBlank = false →
    n.point.isBlank = false →
      ∃ front' back', ms = front' ++ m :: n :: back' ∧ visible front' = visible front

namespace KeepsNeighbours

variable {ms ns : List Mark}

/-- A mark may stay in front of marks, if what it is next to stood there before or is blank. -/
theorem cons (h : KeepsNeighbours ms ns)
    (hhead : ∀ n ∈ ns.head?, n.point.isBlank = false → n ∈ ms.head?) (m : Mark) :
    KeepsNeighbours (m :: ms) (m :: ns) := by
  intro front x y back heq hx hy
  cases front with
  | nil =>
    obtain ⟨rfl, rfl⟩ := List.cons.inj heq
    obtain ⟨back', rfl⟩ := List.head?_eq_some_iff.mp (hhead y rfl hy)
    exact ⟨[], back', rfl, rfl⟩
  | cons m' front =>
    obtain ⟨rfl, rfl⟩ := List.cons.inj heq
    obtain ⟨front', back', rfl, hvisible⟩ := h front x y back rfl hx hy
    refine ⟨m :: front', back', rfl, ?_⟩
    rw [← List.singleton_append, visible_append, hvisible, ← visible_append]
    rfl

/-- Marks may stay in front of marks alike. -/
theorem append_left (h : KeepsNeighbours ms ns)
    (hhead : ∀ n ∈ ns.head?, n.point.isBlank = false → n ∈ ms.head?) (l : List Mark) :
    KeepsNeighbours (l ++ ms) (l ++ ns) := by
  induction l with
  | nil => exact h
  | cons m l ih =>
    refine ih.cons ?_ m
    cases l with
    | nil => exact hhead
    | cons m' l => exact fun n hn _ => hn

/-- Marks that are not visible may be left out. -/
theorem dropped (h : KeepsNeighbours ms ns) {l : List Mark} (hl : visible l = []) :
    KeepsNeighbours (l ++ ms) ns := by
  intro front m n back heq hm hn
  obtain ⟨front', back', rfl, hvisible⟩ := h front m n back heq hm hn
  refine ⟨l ++ front', back', (List.append_assoc l front' _).symm, ?_⟩
  rw [visible_append, hl, hvisible, List.nil_append]

/-- A blank may be put in front. -/
theorem blank_cons (h : KeepsNeighbours ms ns) {m : Mark} (hm : m.point.isBlank = true) :
    KeepsNeighbours ms (m :: ns) := by
  intro front x y back heq hx hy
  cases front with
  | nil =>
    obtain ⟨rfl, -⟩ := List.cons.inj heq
    rw [hm] at hx
    cases hx
  | cons m' front =>
    obtain ⟨rfl, rfl⟩ := List.cons.inj heq
    obtain ⟨front', back', rfl, hvisible⟩ := h front x y back rfl hx hy
    refine ⟨front', back', rfl, ?_⟩
    have hfirst : visible [m] = [] := visible_of_blank (by simpa using hm)
    rw [hvisible, ← List.singleton_append, visible_append, hfirst, List.nil_append]

/-- The two ends of what is left may go, if nothing of the first one is visible. -/
theorem of_between {front back : List Mark} (hfront : visible front = [])
    (h : KeepsNeighbours ms (front ++ (ns ++ back))) : KeepsNeighbours ms ns := by
  intro left m n right heq hm hn
  have hsplit : front ++ (ns ++ back) = (front ++ left) ++ m :: n :: (right ++ back) := by
    simp [heq]
  obtain ⟨left', right', rfl, hvisible⟩ := h _ m n _ hsplit hm hn
  refine ⟨left', right', rfl, ?_⟩
  rw [hvisible, visible_append, hfront, List.nil_append]

end KeepsNeighbours

/-- The marks of a comment are in the comment. -/
theorem isComment_of_mem_construct {r : Region} (hr : r.isComment = true) {t : Text} {m : Mark}
    (hm : m ∈ r.construct t) : m.isComment = true := by
  rw [Mark.isComment, region_of_mem_construct hm]
  exact hr

/-- Without comments the same marks are visible. -/
theorem visible_uncomment [Alphabet] {ls : List Lexeme} (hs : ∀ l ∈ ls, Shape l) :
    visible (uncomment ls).flatten = visible ls.flatten := by
  induction ls with
  | nil => rfl
  | cons l ls ih =>
    obtain ⟨hl, hls⟩ := List.forall_mem_cons.mp hs
    rw [uncomment_cons, List.flatten_append, List.flatten_cons, visible_append, visible_append,
      ih hls]
    congr 1
    cases hl with
    | point => rw [uncommented_point, List.flatten_singleton]
    | word => rw [uncommented_word, List.flatten_singleton]
    | @construct r c t hr =>
      cases r with
      | code => exact absurd rfl hr
      | string => rw [uncommented_string, List.flatten_singleton]
      | lineComment =>
        rw [visible_of_comment fun m => isComment_of_mem_construct rfl, uncommented_line]
        rfl
      | blockComment =>
        rw [visible_of_comment fun m => isComment_of_mem_construct rfl, uncommented_block]
        rfl

/-- Without comments visible marks have no new neighbours. -/
theorem Lexed.keepsNeighbours [Alphabet] {e : Bool} {ls : List Lexeme} (h : Lexed e ls) :
    KeepsNeighbours ls.flatten (Repair.uncomment ls).flatten := by
  have hstays : ∀ {e : Bool} {rest : List Lexeme}, Lexed e rest →
      KeepsNeighbours rest.flatten (Repair.uncomment rest).flatten → ∀ l : Lexeme,
        uncommented l = [l] →
          KeepsNeighbours (l :: rest).flatten (Repair.uncomment (l :: rest)).flatten := by
    intro e rest hrest ih l hl
    rw [uncomment_cons, hl, List.singleton_append, List.flatten_cons, List.flatten_cons]
    refine ih.append_left (fun n hn hblank => ?_) l
    rcases head?_uncomment hrest n hn with hhead | ⟨c, rfl, hc⟩
    · exact hhead
    · rw [Region.mark_point, CodePoint.isBlank_of_isSpacing hc] at hblank
      cases hblank
  have hleaves : ∀ {rest : List Lexeme},
      KeepsNeighbours rest.flatten (Repair.uncomment rest).flatten → ∀ body : Text,
        KeepsNeighbours ((Region.blockComment.construct ('/' :: '*' :: body)) :: rest).flatten
          (Repair.uncomment (Region.blockComment.construct ('/' :: '*' :: body) :: rest)).flatten := by
    intro rest ih body
    rw [uncomment_cons, uncommented_block, List.flatten_cons]
    exact (ih.blank_cons (by decide)).dropped
      (visible_of_comment fun m => isComment_of_mem_construct rfl)
  induction h with
  | nil => exact fun front m n back heq => absurd heq (by simp)
  | point _ _ hrest ih => exact hstays hrest ih _ (uncommented_point _)
  | word _ _ _ hrest ih => exact hstays hrest ih _ (uncommented_word _)
  | literal _ hrest ih => exact hstays hrest ih _ (uncommented_string _ _)
  | unclosedLiteral =>
    exact hstays (.nil false) (fun front m n back heq => absurd heq (by simp)) _
      (uncommented_string _ _)
  | line _ _ _ ih =>
    rw [uncomment_cons, uncommented_line, List.nil_append, List.flatten_cons]
    exact ih.dropped (visible_of_comment fun m => isComment_of_mem_construct rfl)
  | block _ _ ih => exact hleaves ih _
  | unclosedBlock => exact hleaves (fun front m n back heq => absurd heq (by simp)) _

/-- A literal without the blanks at its end. -/
def trimmedLiteral (l : Quote × Text) : Quote × Text := (l.1, l.2.trimEnd)

/-- True of literals and what is left of them if none is changed but a last one that its own text
leaves open, which is trimmed at its end. -/
def OnlyOpenTrimmed (ls ls' : List (Quote × Text)) : Prop :=
  ls' = ls ∨ ∃ front q text, ls = front ++ [(q, text)] ∧ isTerminated text = false ∧
    ls' = front ++ [(q, text.trimEnd)]

/-- A literal may stay in front of others. -/
theorem OnlyOpenTrimmed.cons {ls ls' : List (Quote × Text)} (h : OnlyOpenTrimmed ls ls')
    (l : Quote × Text) : OnlyOpenTrimmed (l :: ls) (l :: ls') := by
  rcases h with rfl | ⟨front, q, text, rfl, hopen, rfl⟩
  · exact .inl rfl
  · exact .inr ⟨l :: front, q, text, rfl, hopen, rfl⟩

/-- The literals among the tokens of atoms are those of the atoms, trimmed at their ends. -/
theorem filterMap_literal?_tokensOf (as : List Atom) :
    (tokensOf as).filterMap Span.literal? = (as.filterMap Atom.literal?).map trimmedLiteral := by
  induction as with
  | nil => rfl
  | cons a as ih =>
    rw [tokensOf_cons, List.filterMap_append, ih]
    cases a with
    | point c =>
      have hpoint : (Atom.point c :: as).filterMap Atom.literal? = as.filterMap Atom.literal? := rfl
      rw [hpoint]
      cases hc : c.isBlank <;> simp [tokensOf, Atom.token?, hc, Span.literal?, Region.quote?]
    | construct r t => cases r <;> rfl

section Literals

variable {next : Option CodePoint} {e : Bool} {as : List Atom}

/-- Trimming the literals of atoms changes none but an open one. -/
theorem onlyOpenTrimmed_literals (h : Atomic next e as) :
    OnlyOpenTrimmed (as.filterMap Atom.literal?)
      ((as.filterMap Atom.literal?).map trimmedLiteral) := by
  induction h with
  | nil => exact .inl rfl
  | point _ _ ih => exact ih
  | @literal q content rest _ _ ih =>
    have hfirst : (Atom.construct (.string q) (q.literal content) :: rest).filterMap
        Atom.literal? = (q, q.literal content) :: rest.filterMap Atom.literal? := rfl
    rw [hfirst, List.map_cons, trimmedLiteral, trimEnd_literal]
    exact ih.cons _
  | @unclosedLiteral q content e hq =>
    have hopen : isTerminated (q.point :: content) = false := by
      rw [isTerminated, finalMode_unclosed hq]
      rfl
    exact .inr ⟨[], q, q.point :: content, rfl, hopen, rfl⟩
  | line _ _ _ ih => exact ih
  | block _ _ ih => exact ih
  | unclosedBlock => exact .inl rfl

/-- Trimming the literals of atoms that do not end in a blank changes none of them. -/
theorem map_trimmedLiteral (h : Atomic next e as)
    (hlast : ∀ c ∈ (textOf as).getLast?, c.isBlank = false) :
    (as.filterMap Atom.literal?).map trimmedLiteral = as.filterMap Atom.literal? := by
  have htail : ∀ {a : Atom} {rest : List Atom},
      (∀ c ∈ (textOf (a :: rest)).getLast?, c.isBlank = false) →
        ∀ c ∈ (textOf rest).getLast?, c.isBlank = false := by
    intro a rest hlast c hc
    refine hlast c ?_
    rw [Option.mem_def] at hc ⊢
    rw [textOf_cons, List.getLast?_append, hc, Option.some_or]
  induction h with
  | nil => rfl
  | point _ _ ih => exact ih (htail hlast)
  | @literal q content rest _ _ ih =>
    have hfirst : (Atom.construct (.string q) (q.literal content) :: rest).filterMap
        Atom.literal? = (q, q.literal content) :: rest.filterMap Atom.literal? := rfl
    rw [hfirst, List.map_cons, trimmedLiteral, trimEnd_literal, ih (htail hlast)]
  | @unclosedLiteral q content e hq =>
    have hsame : Text.trimEnd (q.point :: content) = q.point :: content :=
      Text.trimEnd_eq_self (by simpa [Atom.text] using hlast)
    exact congrArg (fun t => [(q, t)]) hsame
  | line _ _ _ ih => exact ih (htail hlast)
  | block _ _ ih => exact ih (htail hlast)
  | unclosedBlock => rfl

end Literals

/-- Trimming a text trims no literal but one that the text leaves open. -/
theorem onlyOpenTrimmed_trim (t : Text) :
    OnlyOpenTrimmed (stringSegments t) (stringSegments t.trim) := by
  obtain ⟨as, has, rfl⟩ := exists_atomic t
  obtain ⟨bs, hbs, htext, htokens⟩ := has.exists_trim (.inl rfl)
  have hlast : ∀ c ∈ (textOf bs).getLast?, c.isBlank = false := by
    rw [htext]
    exact Text.getLast?_trim _
  have hsame : bs.filterMap Atom.literal? = (as.filterMap Atom.literal?).map trimmedLiteral := by
    rw [← map_trimmedLiteral hbs hlast, ← filterMap_literal?_tokensOf, htokens,
      filterMap_literal?_tokensOf]
  rw [← htext, hbs.stringSegments_textOf, has.stringSegments_textOf, hsame]
  exact onlyOpenTrimmed_literals has

/-- What a trimmed text is scanned to stands between blanks in the scan of the whole text. -/
theorem exists_scan_between (t : Text) :
    ∃ front back, scan t = front ++ (scan t.trim ++ back) ∧ visible front = [] ∧
      visible back = [] := by
  obtain ⟨front, back, hsplit, hfront, hback⟩ := t.exists_trim
  have hscan := (scan_between (t := t.trim) hfront hback).1
  rw [← hsplit] at hscan
  refine ⟨_, _, hscan, visible_of_blank fun m hm => ?_, visible_of_blank fun m hm => ?_⟩
  · obtain ⟨c, hc, rfl⟩ := List.mem_map.mp hm
    exact hfront c hc
  · refine hback m.point ?_
    rw [← points_scanFrom (finalMode t.trim) back]
    exact List.mem_map_of_mem hm

/-- What a text without its comments has to do with the text. -/
structure IsUncommented (t t' : Text) : Prop where
  /-- Nothing is in a comment. -/
  noComment : ∀ m ∈ scan t', m.isComment = false
  /-- The string literals are those of the text, save that one which ends the text may have lost
  the blanks at its end. -/
  literals : OnlyOpenTrimmed (stringSegments t) (stringSegments t')
  /-- The same marks are visible. -/
  sameVisible : visible (scan t') = visible (scan t)
  /-- The live code points that are not blank are those of the text. -/
  sameSignificant : significant t' = significant t
  /-- Visible marks that stand side by side did so in the text. -/
  neighbours : KeepsNeighbours (scan t) (scan t')

/-- A text without comments is only trimmed when its comments are taken out. -/
theorem stripComments_eq_trim {t : Text} (h : ∀ m ∈ scan t, m.isComment = false) :
    stripComments t = t.trim := by
  have hkept : (scan t).filterMap withoutComment = (scan t).map Mark.point := by
    rw [← List.filterMap_eq_map]
    refine List.filterMap_congr fun m hm => ?_
    rw [withoutComment, h m hm]
    rfl
  have hpoints : (scan t).map Mark.point = t := points_scanFrom .start t
  rw [stripComments, hkept, hpoints]

/-- Taking the comments out of a text leaves no comment, changes no string literal but an open one
at the end, keeps the live code points that are not blank, and brings no two code points together
that are not blank and were apart. To take the comments out again changes nothing. -/
theorem stripComments_isUncommented (t : Text) :
    IsUncommented t (stripComments t) ∧ stripComments (stripComments t) = stripComments t := by
  -- Words play no part here, so any alphabet will do to cut the text into lexemes.
  let _ := Alphabet.edition14
  have hls := lexed_lexemes t
  have hflatten : (lexemes (scan t)).flatten = scan t := flatten_runsOf _ _
  obtain ⟨whole, hwhole⟩ : ∃ whole, whole = spelled (uncomment (lexemes (scan t))) := ⟨_, rfl⟩
  have hstrip : stripComments t = whole.trim := by rw [stripComments_eq, hwhole]
  have hscan : scan whole = (uncomment (lexemes (scan t))).flatten := by
    rw [hwhole]
    exact hls.uncomment.scanFrom_spelled
  have hliterals : stringSegments whole = stringSegments t := by
    rw [stringSegments_eq, stringSegments_eq, hwhole, hls.uncomment.lexemes_scan,
      (literals_uncomment hls.shape).1]
  obtain ⟨front, back, hbetween, hfront, hback⟩ := exists_scan_between whole
  have huncommented : ∀ m ∈ scan whole.trim, m.isComment = false := by
    intro m hm
    refine isComment_uncomment hls.shape m ?_
    rw [← hscan, hbetween]
    exact List.mem_append_right _ (List.mem_append_left _ hm)
  have hvisible : visible (scan whole.trim) = visible (scan t) := by
    have hall := congrArg visible hbetween
    rw [visible_append, visible_append, hfront, hback, List.nil_append, List.append_nil] at hall
    rw [← hall, hscan, visible_uncomment hls.shape, hflatten]
  have hneighbours : KeepsNeighbours (scan t) (scan whole.trim) := by
    have hall := hls.keepsNeighbours
    rw [hflatten, ← hscan, hbetween] at hall
    exact hall.of_between hfront
  rw [hstrip]
  refine ⟨⟨huncommented, ?_, hvisible, ?_, hneighbours⟩, ?_⟩
  · rw [← hliterals]
    exact onlyOpenTrimmed_trim whole
  · rw [significant_eq_visible, significant_eq_visible, hvisible]
  · rw [stripComments_eq_trim huncommented, Text.trim_trim]

example : stripComments "a/*b*/c: 'd // e' // f" = "a c: 'd // e'" := by decide +kernel

end SourcePress.Repair
