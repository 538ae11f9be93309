import Mathlib.Tactic
import SourcePress.Lexis.Mask
import SourcePress.Lexis.Segment

/-!
# Scans cut at a place

A scan looks one code point ahead, so the marks of a piece of a text hang on the piece, the mode it
is read from and the first code point behind it. With that code point given, the scan of a text is
the scan of its first piece followed by the scan of the rest, at every cut and from every mode.
-/

namespace SourcePress.Lexis

/-- The marks of a piece that is read from a mode, with the code point behind it. -/
def scanTo : Mode → Text → Option CodePoint → List Mark
  | _, [], _ => []
  | mode, c :: rest, next =>
    mode.mark c (rest.head?.or next) :: scanTo (mode.after c (rest.head?.or next)) rest next

/-- The mode behind a piece that is read from a mode, with the code point behind it. -/
def modeTo : Mode → Text → Option CodePoint → Mode
  | mode, [], _ => mode
  | mode, c :: rest, next => modeTo (mode.after c (rest.head?.or next)) rest next

@[simp] theorem scanTo_nil (mode : Mode) (next : Option CodePoint) : scanTo mode [] next = [] := rfl

@[simp] theorem modeTo_nil (mode : Mode) (next : Option CodePoint) : modeTo mode [] next = mode :=
  rfl

theorem scanTo_cons (mode : Mode) (c : CodePoint) (rest : Text) (next : Option CodePoint) :
    scanTo mode (c :: rest) next =
      mode.mark c (rest.head?.or next) ::
        scanTo (mode.after c (rest.head?.or next)) rest next := rfl

theorem modeTo_cons (mode : Mode) (c : CodePoint) (rest : Text) (next : Option CodePoint) :
    modeTo mode (c :: rest) next = modeTo (mode.after c (rest.head?.or next)) rest next := rfl

/-- The end of a text is a piece with nothing behind it. -/
theorem scanFrom_eq_scanTo (mode : Mode) (t : Text) : scanFrom mode t = scanTo mode t none := by
  induction t generalizing mode with
  | nil => rfl
  | cons c t ih => rw [scanFrom, scanTo, Option.or_none, ih]

/-- The mode behind a text is the mode behind it as a piece with nothing behind it. -/
theorem modeAfter_eq_modeTo (mode : Mode) (t : Text) : modeAfter mode t = modeTo mode t none := by
  induction t generalizing mode with
  | nil => rfl
  | cons c t ih => rw [modeAfter, modeTo, Option.or_none, ih]

/-- A piece is scanned like its two parts, the first one with the head of the second behind it. -/
theorem scanTo_append (mode : Mode) (s t : Text) (next : Option CodePoint) :
    scanTo mode (s ++ t) next =
      scanTo mode s (t.head?.or next) ++ scanTo (modeTo mode s (t.head?.or next)) t next := by
  induction s generalizing mode with
  | nil => rfl
  | cons c s ih =>
    rw [List.cons_append, scanTo_cons, scanTo_cons, modeTo_cons, List.head?_append,
      Option.or_assoc, ih, List.cons_append]

/-- The mode behind two parts is the mode behind the second one, read from that behind the first. -/
theorem modeTo_append (mode : Mode) (s t : Text) (next : Option CodePoint) :
    modeTo mode (s ++ t) next = modeTo (modeTo mode s (t.head?.or next)) t next := by
  induction s generalizing mode with
  | nil => rfl
  | cons c s ih =>
    rw [List.cons_append, modeTo_cons, modeTo_cons, List.head?_append, Option.or_assoc, ih]

/-- The scan of a text is the scan of a first piece followed by the scan of the rest. -/
theorem scanFrom_append (mode : Mode) (s t : Text) :
    scanFrom mode (s ++ t) =
      scanTo mode s t.head? ++ scanFrom (modeTo mode s t.head?) t := by
  rw [scanFrom_eq_scanTo, scanTo_append, scanFrom_eq_scanTo, Option.or_none]

/-- The mode behind a text is the mode behind its last piece. -/
theorem modeAfter_append (mode : Mode) (s t : Text) :
    modeAfter mode (s ++ t) = modeAfter (modeTo mode s t.head?) t := by
  rw [modeAfter_eq_modeTo, modeTo_append, modeAfter_eq_modeTo, Option.or_none]

/-- A piece has one mark for each of its code points. -/
@[simp] theorem points_scanTo (mode : Mode) (t : Text) (next : Option CodePoint) :
    points (scanTo mode t next) = t := by
  induction t generalizing mode with
  | nil => rfl
  | cons c t ih =>
    rw [scanTo_cons, points, List.map_cons, mark_point]
    exact congrArg _ (ih _)

@[simp] theorem points_nil : points [] = [] := rfl

@[simp] theorem points_cons (m : Mark) (ms : List Mark) :
    points (m :: ms) = m.point :: points ms := rfl

@[simp] theorem points_append (ms ns : List Mark) : points (ms ++ ns) = points ms ++ points ns :=
  List.map_append

/-- A code point that is no quote, no solidus and no backslash reads alike before anything. -/
theorem opening?_of_plain {c : CodePoint} (hq : Quote.ofPoint? c = none) (hs : c ≠ '/')
    (next : Option CodePoint) : Mode.opening? c next = none := by
  unfold Mode.opening?
  rw [hq]
  dsimp only
  rw [if_neg fun h => hs h.1, if_neg fun h => hs h.1]

/-- A solidus opens nothing before what is neither a solidus nor an asterisk. -/
theorem opening?_of_next {c : CodePoint} {next : Option CodePoint} (hq : Quote.ofPoint? c = none)
    (hs : next ≠ some (.scalar '/')) (ha : next ≠ some (.scalar '*')) :
    Mode.opening? c next = none := by
  unfold Mode.opening?
  rw [hq]
  dsimp only
  rw [if_neg fun h => hs h.2, if_neg fun h => ha h.2]

/-- What opens nothing is no quote. -/
theorem ofPoint?_of_opening? {c : CodePoint} {next : Option CodePoint}
    (h : Mode.opening? c next = none) : Quote.ofPoint? c = none := by
  unfold Mode.opening? at h
  split at h
  · exact absurd h (by simp)
  · assumption

/-- A quote is the code point of its kind. -/
theorem eq_point_of_ofPoint? {c : CodePoint} {q : Quote} (h : Quote.ofPoint? c = some q) :
    c = q.point := by
  unfold Quote.ofPoint? at h
  split_ifs at h with hd hs hb <;> cases h <;> assumption

/-- The three ways to open a construct: a quote, two solidi, a solidus and an asterisk. -/
theorem opening?_eq_some {c : CodePoint} {next : Option CodePoint} {mode : Mode}
    (h : Mode.opening? c next = some mode) :
    (∃ q, c = Quote.point q) ∨ c = '/' ∧ next = some (.scalar '/') ∨
      c = '/' ∧ next = some (.scalar '*') := by
  unfold Mode.opening? at h
  split at h
  · next q hq => exact .inl ⟨q, eq_point_of_ofPoint? hq⟩
  · split_ifs at h with hline hblock
    · exact .inr (.inl hline)
    · exact .inr (.inr hblock)

/-- The mode of a construct that is opened is none of live code. -/
theorem ne_code_of_opening? {c : CodePoint} {next : Option CodePoint} {mode : Mode}
    (h : Mode.opening? c next = some mode) (e : Bool) : mode ≠ .code e := by
  unfold Mode.opening? at h
  split at h
  · cases h
    exact Mode.noConfusion
  · split_ifs at h <;> cases h <;> exact Mode.noConfusion

/-- The text of marks begins with the code point of the first one. -/
theorem head?_points (ms : List Mark) : (points ms).head? = ms.head?.map Mark.point :=
  List.head?_map

/-- The last opening of two parts is that of the second one, or else that of the first. -/
theorem lastOpening?_append (ms ns : List Mark) :
    lastOpening? (ms ++ ns) =
      ((lastOpening? ns).map (ms.length + ·)).or (lastOpening? ms) := by
  have hshift : ns.zipIdx ms.length = ns.zipIdx.map fun m => (m.1, ms.length + m.2) :=
    List.zipIdx_eq_map_add
  have hfilter : ((ns.zipIdx.map fun m => (m.1, ms.length + m.2)).filter fun m => m.1.opens) =
      (ns.zipIdx.filter fun m => m.1.opens).map fun m => (m.1, ms.length + m.2) := by
    rw [List.filter_map]
    rfl
  simp only [lastOpening?]
  rw [List.zipIdx_append, Nat.zero_add, List.filter_append, List.getLast?_append, hshift,
    hfilter, List.getLast?_map, Option.map_or, Option.map_map, Option.map_map]
  rfl

/-- Marks that open nothing have no last opening. -/
theorem lastOpening?_eq_none {ms : List Mark} (h : ∀ m ∈ ms, m.opens = false) :
    lastOpening? ms = none := by
  have hfilter : (ms.zipIdx.filter fun m => m.1.opens) = [] := by
    refine List.filter_eq_nil_iff.mpr fun m hm => ?_
    rw [h m.1 (List.fst_mem_of_mem_zipIdx hm)]
    exact Bool.false_ne_true
  rw [lastOpening?, hfilter]
  rfl

/-- Without a last opening no mark opens anything. -/
theorem opens_eq_false_of_lastOpening? {ms : List Mark} (h : lastOpening? ms = none) :
    ∀ m ∈ ms, m.opens = false := by
  intro m hm
  obtain ⟨i, hi⟩ := List.mem_iff_getElem?.mp hm
  have hfilter := Option.map_eq_none_iff.mp h
  rw [List.getLast?_eq_none_iff, List.filter_eq_nil_iff] at hfilter
  have hnot := hfilter (m, i) (List.mem_zipIdx_iff_getElem?.mpr hi)
  exact Bool.eq_false_of_not_eq_true hnot

end SourcePress.Lexis
