/-!
# Texts as lists of code points

A text is the list of its code points, so every index, length and position counts code points.
A code point is a Unicode scalar value or a lone surrogate: surrogates can stand in a text, and
two of them side by side stay two.
-/

namespace SourcePress

/-- One place of a text. -/
inductive CodePoint where
  /-- A Unicode scalar value. -/
  | scalar (c : Char)
  /-- The surrogate this many places after U+D800. -/
  | surrogate (s : Fin 2048)
  deriving DecidableEq, Repr, Inhabited

instance : Coe Char CodePoint := ⟨.scalar⟩

namespace CodePoint

/-- The number of a code point. -/
def value : CodePoint → Nat
  | scalar c => c.toNat
  | surrogate s => 0xD800 + s.val

/-- The code point with a number, if there is one: numbers stop at U+10FFFF. -/
def ofNat? (n : Nat) : Option CodePoint :=
  if h : 0xD800 ≤ n ∧ n < 0xE000 then some (surrogate ⟨n - 0xD800, by omega⟩)
  else if n < 0x110000 then some (scalar (Char.ofNat n))
  else none

/-- The bytes of a code point in UTF-8; a surrogate takes three like its neighbours. -/
def byteLength (c : CodePoint) : Nat :=
  if c.value < 0x80 then 1
  else if c.value < 0x800 then 2
  else if c.value < 0x10000 then 3
  else 4

/-- The character of a code point that is no surrogate. -/
def char? : CodePoint → Option Char
  | scalar c => some c
  | surrogate _ => none

/-- True of a surrogate. -/
def isSurrogate : CodePoint → Bool
  | scalar _ => false
  | surrogate _ => true

/-- No code point takes fewer than one byte. -/
theorem byteLength_pos (c : CodePoint) : 0 < c.byteLength := by
  unfold byteLength
  split <;> (try split) <;> (try split) <;> decide

/-- No code point takes more than four bytes. -/
theorem byteLength_le (c : CodePoint) : c.byteLength ≤ 4 := by
  unfold byteLength
  split <;> (try split) <;> (try split) <;> decide

end CodePoint

/-- A text is the list of its code points. -/
abbrev Text := List CodePoint

/-- An offset that lies outside a text was looked at. -/
structure OutOfText where
  /-- The offset, counted from the end when negative. -/
  offset : Int
  deriving DecidableEq, Repr

namespace Text

/-- The text of a string. -/
def ofString (s : String) : Text := s.toList.map CodePoint.scalar

instance : Coe String Text := ⟨ofString⟩

/-- The string of a text, if no surrogate stands in it. -/
def toString? (t : Text) : Option String :=
  (t.mapM CodePoint.char?).map String.ofList

/-- The bytes of a text in UTF-8, three for each surrogate. -/
def byteLength : Text → Nat
  | [] => 0
  | c :: t => c.byteLength + byteLength t

/-- An index counted from the end when negative, brought into the text's bounds. -/
def bound (t : Text) (i : Int) : Nat :=
  if i < 0 then (t.length + i).toNat else min i.toNat t.length

/-- The part of a text between two bounds; it is empty when they cross. -/
def slice (t : Text) (start stop : Int) : Text :=
  (t.drop (t.bound start)).take (t.bound stop - t.bound start)

/-- A text repeated; a negative count repeats it no times. -/
def repeated (t : Text) (count : Int) : Text := (List.replicate count.toNat t).flatten

/-- The decimal digits of a natural number. -/
def ofNat (n : Nat) : Text := (Nat.toDigits 10 n).map CodePoint.scalar

/-- The decimal digits of an integer behind its sign. -/
def ofInt : Int → Text
  | .ofNat n => ofNat n
  | .negSucc n => '-' :: ofNat (n + 1)

/-- The lower-case hexadecimal digits of a number, with zeros in front up to a width. -/
def ofHex (width n : Nat) : Text :=
  let digits := (Nat.toDigits 16 n).map CodePoint.scalar
  List.replicate (width - digits.length) (.scalar '0') ++ digits

/-- Texts put together with a separator between neighbours. -/
def join (separator : Text) (ts : List Text) : Text := separator.intercalate ts

/-- The lines of a text: the pieces between line feeds, one more than there are line feeds. -/
def lines : Text → List Text
  | [] => [[]]
  | c :: rest =>
    if c = '\n' then [] :: lines rest
    else match lines rest with
      | [] => [[c]]
      | line :: more => (c :: line) :: more

@[simp] theorem ofString_empty : ofString "" = [] := rfl

@[simp] theorem byteLength_nil : byteLength [] = 0 := rfl

@[simp] theorem byteLength_cons (c : CodePoint) (t : Text) :
    byteLength (c :: t) = c.byteLength + byteLength t := rfl

@[simp] theorem byteLength_append (s t : Text) :
    byteLength (s ++ t) = byteLength s + byteLength t := by
  induction s with
  | nil => simp
  | cons c s ih => simp [ih, Nat.add_assoc]

/-- A text has at least as many bytes as code points. -/
theorem length_le_byteLength (t : Text) : t.length ≤ byteLength t := by
  induction t with
  | nil => simp
  | cons c t ih =>
    have := c.byteLength_pos
    simp only [List.length_cons, byteLength_cons]
    omega

/-- A text has one line more than line feeds. -/
theorem length_lines (t : Text) : (lines t).length = t.count (.scalar '\n') + 1 := by
  induction t with
  | nil => rfl
  | cons c t ih =>
    unfold lines
    by_cases h : c = .scalar '\n'
    · simp [h, ih]
    · rw [if_neg h, List.count_cons_of_ne (by simpa using h)]
      split
      · next h0 => rw [h0] at ih; simp at ih
      · next h0 => rw [h0] at ih; simpa using ih

end Text

end SourcePress
