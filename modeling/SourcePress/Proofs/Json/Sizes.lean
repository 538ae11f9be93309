import SourcePress.Proofs.Json.Writing

/-!
# The size of what is written

A value that is written without gaps takes no more bytes than the tokens that it was read from, but
for its binary64 numbers: these are written with their shortest digits in one of two notations,
and a literal such as `1e5` is shorter than that. Integers lose their sign at most, escapes are
written as the characters that they stand for or as escapes that are no longer, and a key that
comes twice is written once. So each token has room for what becomes of it.
-/

namespace SourcePress.Json

open Lexis

/-- The bytes by which a token is written longer than it was. Only literals of binary64 numbers can
grow. -/
def Token.growth : Token → Nat
  | .atom text =>
    match readAtom text with
    | .ok (.float x, _) => (Text.ofBinary64 .usual x).byteLength - text.byteLength
    | _ => 0
  | _ => 0

/-- The bytes by which tokens grow. -/
def growth : List Token → Nat
  | [] => 0
  | tok :: ts => tok.growth + growth ts

/-- The bytes that a token has room for. -/
def Token.room (tok : Token) : Nat := tok.text.byteLength + tok.growth

/-- The bytes that tokens have room for. -/
def room : List Token → Nat
  | [] => 0
  | tok :: ts => tok.room + room ts

@[simp] theorem room_nil : room [] = 0 := rfl

@[simp] theorem room_cons (tok : Token) (ts : List Token) :
    room (tok :: ts) = tok.room + room ts := rfl

@[simp] theorem room_append (ts ts' : List Token) : room (ts ++ ts') = room ts + room ts' := by
  induction ts with
  | nil => simp
  | cons tok ts ih => simp [ih, Nat.add_assoc]

@[simp] theorem room_punctuation (c : CodePoint) :
    (Token.punctuation c).room = c.byteLength := rfl

/-- Tokens that are woven into a text have room for its bytes and what they grow by. -/
theorem Woven.room_le {comments : Bool} {ts : List Token} {t : Text} (h : Woven comments ts t) :
    room ts ≤ t.byteLength + growth ts := by
  induction h with
  | nil => exact Nat.zero_le _
  | cons _ _ ih =>
    simp only [room_cons, Token.room, growth, Text.byteLength_append]
    omega

/-- A code point of ASCII takes one byte. -/
theorem byteLength_of_lt {c : CodePoint} (h : c.value < 0x80) : c.byteLength = 1 := if_pos h

/-- Only what a string may not hold is escaped. -/
theorem writePoint_of_plain {c : CodePoint} (hcontrol : 0x1F < c.value)
    (hquote : c ≠ .scalar '"') (hescape : c ≠ .scalar '\\') : writePoint c = [c] := by
  unfold writePoint
  split
  · exact absurd rfl hquote
  · exact absurd rfl hescape
  iterate 5
    · exact absurd hcontrol (by decide)
  · rw [if_neg (by omega)]

/-- No code point is written with more than the six bytes of an escape. -/
theorem byteLength_writePoint_le (c : CodePoint) : (writePoint c).byteLength ≤ 6 := by
  have hhex : ∀ n < 0x20, (Text.ofHex 4 n).byteLength = 4 := by decide
  unfold writePoint
  split
  iterate 7
    · decide
  · split
    · next hcontrol =>
      rw [Text.byteLength_cons, Text.byteLength_cons, hhex _ hcontrol]
      decide
    · have hbytes := c.byteLength_le
      rw [Text.byteLength_cons, Text.byteLength_nil]
      omega

/-- What a one-letter escape stands for is written with two bytes at most. -/
theorem byteLength_writePoint_of_escaped? {e c : CodePoint} (h : escaped? e = some c) :
    (writePoint c).byteLength ≤ 2 := by
  unfold escaped? at h
  split at h
  iterate 8
    · cases h
      decide
  · cases h

/-- The bytes that a piece of a string has room for: an escaped unit has those of its escape. -/
def Piece.room : Piece → Nat
  | plain c => (writePoint c).byteLength
  | unit _ => 6

/-- The bytes that the pieces of a string have room for. -/
def piecesRoom : List Piece → Nat
  | [] => 0
  | p :: ps => p.room + piecesRoom ps

/-- A piece has room for the code point that it stands for. -/
theorem Piece.byteLength_le_room (p : Piece) : (writePoint p.point).byteLength ≤ p.room := by
  cases p with
  | plain c => exact le_rfl
  | unit n => exact byteLength_writePoint_le _

/-- Pieces have room for the text that they stand for. Two halves have room for their pair. -/
theorem byteLength_joined_le (ps : List Piece) :
    Text.byteLength ((joined ps).flatMap writePoint) ≤ piecesRoom ps := by
  fun_induction joined ps with
  | case1 => exact le_rfl
  | case2 high low rest hpair ih =>
    have hbytes := byteLength_writePoint_le (ofPair high low)
    simp only [List.flatMap_cons, Text.byteLength_append, piecesRoom, Piece.room]
    omega
  | case3 high low rest hpair ih =>
    have hbytes := (Piece.unit high).byteLength_le_room
    simp only [List.flatMap_cons, Text.byteLength_append, piecesRoom] at ih ⊢
    omega
  | case4 piece rest hpair ih =>
    have hbytes := piece.byteLength_le_room
    simp only [List.flatMap_cons, Text.byteLength_append, piecesRoom]
    omega

/-- What is between quotation marks takes the bytes that its pieces have room for. -/
theorem Spells.piecesRoom_le {content : Text} {ps : List Piece} (h : Spells .double content ps) :
    piecesRoom ps ≤ content.byteLength := by
  induction h with
  | nil => exact le_rfl
  | plain hcontrol hquote hescape _ ih =>
    simp only [piecesRoom, Piece.room, writePoint_of_plain hcontrol hquote hescape,
      Text.byteLength_cons, Text.byteLength_nil]
    omega
  | @escape e c t ps he _ ih =>
    have hbytes := byteLength_writePoint_of_escaped? he
    have he' := e.byteLength_pos
    simp (disch := decide) only [piecesRoom, Piece.room, Text.byteLength_cons, byteLength_of_lt]
    omega
  | apostrophe hq => cases hq
  | @unit a b c d n t ps _ _ ih =>
    have ha := a.byteLength_pos
    have hb := b.byteLength_pos
    have hc := c.byteLength_pos
    have hd := d.byteLength_pos
    simp (disch := decide) only [piecesRoom, Piece.room, Text.byteLength_cons, byteLength_of_lt]
    omega

/-- A string literal has room for the string that it stands for. -/
theorem Spells.byteLength_writeString_le {content : Text} {ps : List Piece}
    (h : Spells .double content ps) :
    (writeString (joined ps)).byteLength ≤ (Token.literal .double content).room := by
  have hjoined := byteLength_joined_le ps
  have hpieces := h.piecesRoom_le
  have htext : (Token.literal .double content).text.byteLength =
      content.byteLength + 2 * (CodePoint.scalar '"').byteLength := by
    simp only [Token.text, Quote.literal, Quote.point, Text.byteLength_cons,
      Text.byteLength_append, Text.byteLength_nil]
    omega
  simp only [Token.room, htext, writeString, Text.byteLength_cons, Text.byteLength_append,
    Text.byteLength_nil]
  omega

/-- Digits take a byte each. -/
theorem byteLength_of_digits {t : Text} (h : ∀ c ∈ t, isDigit c) : t.byteLength = t.length := by
  induction t with
  | nil => rfl
  | cons c t ih =>
    obtain ⟨hc, ht⟩ := List.forall_mem_cons.mp h
    simp only [isDigit, Bool.and_eq_true, decide_eq_true_eq] at hc
    rw [Text.byteLength_cons, byteLength_of_lt (by omega), ih ht, List.length_cons, Nat.add_comm]

/-- A number is written with no more digits than those that it is the number of. -/
theorem byteLength_ofNat_ofDigits_le {digits : Text} (h : AreDigits digits) :
    (Text.ofNat (ofDigits digits)).byteLength ≤ digits.byteLength := by
  have hpos : 0 < digits.length := List.length_pos_iff.mpr h.1
  have hlength : (Text.ofNat (ofDigits digits)).length ≤ digits.length := by
    rw [Text.ofNat, List.length_map]
    exact (Nat.length_toDigits_le_iff (by decide) hpos).mpr (ofDigits_lt h.2)
  rw [byteLength_of_digits (areDigits_ofNat _).2, byteLength_of_digits h.2]
  exact hlength

/-- An integer is written with no more than its digits and its sign. -/
theorem Numeral.byteLength_ofInt_le (n : Numeral) (h : AreDigits n.whole) :
    (Text.ofInt n.toInt).byteLength ≤
      Text.byteLength (if n.negative then [.scalar '-'] else []) + n.whole.byteLength := by
  have hdigits := byteLength_ofNat_ofDigits_le h
  rw [Numeral.toInt]
  cases n.negative with
  | false => exact hdigits.trans (Nat.le_add_left _ _)
  | true =>
    rw [if_pos rfl, if_pos rfl]
    cases hvalue : ofDigits n.whole with
    | zero =>
      -- a negative zero loses its sign
      rw [hvalue] at hdigits
      exact hdigits.trans (Nat.le_add_left _ _)
    | succ k =>
      rw [hvalue] at hdigits
      exact Nat.add_le_add_left hdigits _

/-- A literal of a number has room for the number. -/
theorem Denotes.byteLength_writeAt_le {n : Numeral} {t : Text} {v : Json} (ht : SpellsNumeral n t)
    (h : Denotes n v) (level : Nat) :
    (writeAt .compact level v).byteLength ≤ (Token.atom t).room := by
  have hread : readAtom t = .ok (v, []) := by
    have hstops : Stops [] := by simp [Stops]
    have hatom := readAtom_number ht h hstops
    rwa [List.append_nil] at hatom
  rcases h with ⟨-, -, rfl⟩ | ⟨-, x, -, rfl⟩
  · obtain ⟨fraction, exponent, hwhole, -, -, rfl⟩ := ht
    have hint := n.byteLength_ofInt_le hwhole.areDigits
    rw [writeAt, Token.room, Token.text]
    simp only [Text.byteLength_append]
    omega
  · rw [writeAt, Token.room, Token.growth, hread]
    dsimp only [Token.text]
    omega

/-- The bytes of members, the first of them apart. -/
theorem byteLength_writeMembers_cons (level : Nat) (m : Text × Json) (ms : List (Text × Json)) :
    (writeMembers .compact level (m :: ms)).byteLength =
      (writeMembers .compact level [m]).byteLength +
        (writeMembers .compact level ms).byteLength := by
  obtain ⟨key, item⟩ := m
  rw [writeMembers, writeMembers, writeMembers]
  simp only [Text.byteLength_cons, Text.byteLength_append, Text.byteLength_nil]
  omega

/-- To set a member takes no more bytes than the member does. -/
theorem byteLength_writeMembers_setMember_le (level : Nat) (ms : List (Text × Json)) (key : Text)
    (value : Json) :
    (writeMembers .compact level (setMember ms key value)).byteLength ≤
      (writeMembers .compact level ms).byteLength +
        (writeMembers .compact level [(key, value)]).byteLength := by
  induction ms with
  | nil => exact Nat.le_add_left _ _
  | cons m ms ih =>
    rw [setMember, byteLength_writeMembers_cons level m]
    split
    · rw [byteLength_writeMembers_cons]
      omega
    · rw [byteLength_writeMembers_cons]
      omega

/-- An object takes no more bytes than all the pairs that it was written with. -/
theorem byteLength_writeMembers_ofPairs_le (level : Nat) (pairs : List (Text × Json)) :
    (writeMembers .compact level (ofPairs pairs)).byteLength ≤
      (writeMembers .compact level pairs).byteLength := by
  have hfold : ∀ ms : List (Text × Json),
      (writeMembers .compact level
        (pairs.foldl (fun ms pair => setMember ms pair.1 pair.2) ms)).byteLength ≤
      (writeMembers .compact level ms).byteLength +
        (writeMembers .compact level pairs).byteLength := by
    induction pairs with
    | nil => exact fun ms => Nat.le_add_right _ _
    | cons pair pairs ih =>
      obtain ⟨key, value⟩ := pair
      intro ms
      have hset := byteLength_writeMembers_setMember_le level ms key value
      have hrest := ih (setMember ms key value)
      rw [List.foldl_cons, byteLength_writeMembers_cons level (key, value) pairs]
      dsimp only
      omega
  exact (hfold []).trans (by simp [writeMembers])

/-- What it is for a phrase to be written within some bytes. Items and members are written with a
comma in front of each. -/
def Phrase.WrittenWithin (bytes : Nat) : Phrase → Prop
  | value _ v => ∀ level, (writeAt .compact level v).byteLength ≤ bytes
  | items vs => ∀ level, (writeItems .compact level vs).byteLength ≤ bytes + 1
  | members ms => ∀ level, (writeMembers .compact level ms).byteLength ≤ bytes + 1

/-- The name of a member has room for its key. -/
theorem Names.byteLength_writeString_le [Alphabet] {tok : Token} {key : Text} (h : Names .none tok key) :
    (writeString key).byteLength ≤ tok.room := by
  obtain ⟨content, ps, hspells, rfl, rfl⟩ := h.exists_literal
  exact hspells.byteLength_writeString_le

/-- A member takes its key and its value, a comma and a colon. -/
theorem byteLength_writeMembers_singleton (level : Nat) (key : Text) (item : Json) :
    (writeMembers .compact level [(key, item)]).byteLength =
      2 + (writeString key).byteLength + (writeAt .compact level item).byteLength := by
  rw [writeMembers, writeMembers, writeKey, Layout.behindComma, Layout.behindColon]
  simp (disch := decide) only [Text.byteLength_cons, Text.byteLength_append, Text.byteLength_nil,
    byteLength_of_lt]
  omega

/-- The bytes of items, the first of them apart. -/
theorem byteLength_writeItems_cons (level : Nat) (item : Json) (items : List Json) :
    (writeItems .compact level (item :: items)).byteLength =
      1 + (writeAt .compact level item).byteLength +
        (writeItems .compact level items).byteLength := by
  rw [writeItems, Layout.behindComma]
  simp (disch := decide) only [Text.byteLength_cons, Text.byteLength_append, Text.byteLength_nil,
    byteLength_of_lt]
  omega

/-- An array takes its items and its brackets, less the comma in front of the first item. -/
theorem byteLength_writeAt_arr_le {bytes : Nat} {level : Nat} {vs : List Json}
    (h : (writeItems .compact (level + 1) vs).byteLength ≤ bytes + 1) :
    (writeAt .compact level (.arr vs)).byteLength ≤ bytes + 2 := by
  cases vs with
  | nil =>
    have hempty : (writeAt .compact level (.arr [])).byteLength = 2 := by
      rw [writeAt]
      decide
    omega
  | cons item items =>
    rw [byteLength_writeItems_cons] at h
    rw [writeAt, Layout.edge, Layout.edge]
    simp (disch := decide) only [Text.byteLength_cons, Text.byteLength_append,
      Text.byteLength_nil, byteLength_of_lt]
    omega

/-- An object takes its members and its braces, less the comma in front of the first member. -/
theorem byteLength_writeAt_obj_le {bytes : Nat} {level : Nat} {ms : List (Text × Json)}
    (h : (writeMembers .compact (level + 1) ms).byteLength ≤ bytes + 1) :
    (writeAt .compact level (.obj ms)).byteLength ≤ bytes + 2 := by
  cases ms with
  | nil =>
    have hempty : (writeAt .compact level (.obj [])).byteLength = 2 := by
      rw [writeAt]
      decide
    omega
  | cons m ms =>
    obtain ⟨key, item⟩ := m
    rw [byteLength_writeMembers_cons, byteLength_writeMembers_singleton] at h
    rw [writeAt, writeKey, Layout.edge, Layout.edge, Layout.behindColon]
    simp (disch := decide) only [Text.byteLength_cons, Text.byteLength_append,
      Text.byteLength_nil, byteLength_of_lt]
    omega

/-- Strict tokens have room for what is written of them without gaps. -/
theorem Derives.writtenWithin [Alphabet] {n : Nat} {φ : Phrase} {ts : List Token}
    (h : Derives .none n φ ts) : φ.WrittenWithin (room ts) := by
  induction h with
  | null => exact fun level => Nat.le_add_right _ _
  | bool b =>
    intro level
    cases b <;> exact Nat.le_add_right _ _
  | number ht hv => exact fun level => hv.byteLength_writeAt_le ht level
  | string h => exact fun level => h.byteLength_writeString_le
  | singleString hs => cases hs
  | emptyArray =>
    intro level
    exact byteLength_writeAt_arr_le (Nat.zero_le (0 + 1))
  | array h htrail ih =>
    intro level
    have hitems := byteLength_writeAt_arr_le (ih (level + 1))
    simp (disch := decide) only [room_cons, room_append, room_punctuation, room_nil,
      byteLength_of_lt]
    omega
  | emptyObject =>
    intro level
    exact byteLength_writeAt_obj_le (Nat.zero_le (0 + 1))
  | @object n nested ms ts trail h htrail ih =>
    intro level
    have hpairs := (byteLength_writeMembers_ofPairs_le (level + 1) ms).trans (ih (level + 1))
    have hmembers := byteLength_writeAt_obj_le hpairs
    simp (disch := decide) only [room_cons, room_append, room_punctuation, room_nil,
      byteLength_of_lt]
    omega
  | item h ih =>
    intro level
    have hitem := ih level
    rw [byteLength_writeItems_cons, writeItems, Text.byteLength_nil]
    omega
  | consItem h h' ih ih' =>
    intro level
    have hitem := ih level
    have hitems := ih' level
    simp (disch := decide) only [byteLength_writeItems_cons, room_cons, room_append,
      room_punctuation, byteLength_of_lt]
    omega
  | member hk h ih =>
    intro level
    have hitem := ih level
    have hkey := hk.byteLength_writeString_le
    simp (disch := decide) only [byteLength_writeMembers_singleton, room_cons, room_punctuation,
      byteLength_of_lt]
    omega
  | consMember hk h h' ih ih' =>
    intro level
    have hitem := ih level
    have hmembers := ih' level
    have hkey := hk.byteLength_writeString_le
    rw [byteLength_writeMembers_cons]
    simp (disch := decide) only [byteLength_writeMembers_singleton, room_cons, room_append,
      room_punctuation, byteLength_of_lt]
    omega

example : growth [.atom "1e5", .atom "12", .atom "0.10"] = 5 := by decide +kernel

end SourcePress.Json
