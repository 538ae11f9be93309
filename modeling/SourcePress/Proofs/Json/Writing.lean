import SourcePress.Json.Writer
import SourcePress.Proofs.Json.Members
import SourcePress.Proofs.Json.Soundness
import SourcePress.Proofs.Json.WrittenNumbers

/-!
# What is written is a strict document

A value fits the reader if its integers and its nesting are within the limits and no object has a
key twice. Every value of a document fits, and every value that fits is written, in each layout, as
a strict document of this value.
-/

namespace SourcePress.Json

/-- The values that the reader can give, with containers nested at most so deep. -/
inductive Fits : Nat → Json → Prop
  /-- The null value. -/
  | null {n : Nat} : Fits n .null
  /-- The truth values. -/
  | bool {n : Nat} (b : Bool) : Fits n (.bool b)
  /-- The integers within the limit of digits. -/
  | int {n : Nat} {i : Int} (h : i.natAbs < 10 ^ maxIntegerDigits) : Fits n (.int i)
  /-- The numbers of the binary64 format. -/
  | float {n : Nat} (x : Binary64) : Fits n (.float x)
  /-- The strings. -/
  | str {n : Nat} (t : Text) : Fits n (.str t)
  /-- The arrays of such values. -/
  | arr {n : Nat} {vs : List Json} (h : ∀ v ∈ vs, Fits n v) : Fits (n + 1) (.arr vs)
  /-- The objects of such values under different keys. -/
  | obj {n : Nat} {ms : List (Text × Json)} (hkeys : (keys ms).Nodup)
      (h : ∀ m ∈ ms, Fits n m.2) : Fits (n + 1) (.obj ms)

/-- What it is for a phrase to fit. -/
def Phrase.Fits (n : Nat) : Phrase → Prop
  | value _ v => Json.Fits n v
  | items vs => ∀ v ∈ vs, Json.Fits n v
  | members ms => ∀ m ∈ ms, Json.Fits n m.2

/-- A number with so many digits is below the power of ten. -/
theorem ofDigits_lt {t : Text} (h : ∀ c ∈ t, isDigit c) : ofDigits t < 10 ^ t.length := by
  induction t using List.reverseRecOn with
  | nil => decide
  | append_singleton t c ih =>
    have hinit := ih fun d hd => h d (List.mem_append_left _ hd)
    have hc := h c (by simp)
    simp only [isDigit, Bool.and_eq_true, decide_eq_true_eq] at hc
    rw [ofDigits_append_singleton, List.length_append, List.length_singleton, Nat.pow_succ]
    omega

/-- A number that is denoted fits. -/
theorem Denotes.fits {numeral : Numeral} {t : Text} {v : Json} (ht : SpellsNumeral numeral t)
    (h : Denotes numeral v) (n : Nat) : Fits n v := by
  rcases h with ⟨-, hlimit, rfl⟩ | ⟨-, x, -, rfl⟩
  · obtain ⟨_, _, hwhole, -⟩ := ht
    have hlt := ofDigits_lt hwhole.areDigits.2
    have habs : numeral.toInt.natAbs = ofDigits numeral.whole := by
      unfold Numeral.toInt
      split <;> omega
    refine .int ?_
    rw [habs]
    exact hlt.trans_le (Nat.pow_le_pow_right (by decide) hlimit)
  · exact .float x

/-- What is derived fits. -/
theorem Derives.fits [Alphabet] {s : Repair.Settings} {n : Nat} {φ : Phrase} {ts : List Token}
    (h : Derives s n φ ts) : φ.Fits n := by
  induction h with
  | null => exact .null
  | bool b => exact .bool b
  | number ht hv => exact hv.fits ht _
  | string => exact .str _
  | singleString => exact .str _
  | emptyArray => exact .arr (by simp)
  | array h htrail ih => exact .arr ih
  | emptyObject => exact .obj List.nodup_nil (by simp)
  | object h htrail ih =>
    refine .obj (nodup_keys_ofPairs _) fun m hm => ?_
    obtain ⟨pair, hpair, heq⟩ := mem_ofPairs hm
    rw [← heq]
    exact ih pair hpair
  | item h ih => exact fun v hv => List.mem_singleton.mp hv ▸ ih
  | consItem h h' ih ih' => exact List.forall_mem_cons.mpr ⟨ih, ih'⟩
  | member hk h ih => exact fun m hm => List.mem_singleton.mp hm ▸ ih
  | consMember hk h h' ih ih' => exact List.forall_mem_cons.mpr ⟨ih, ih'⟩

/-- What it is for a value to be written as strict JSON, in each layout and at each level. -/
def Writes [Alphabet] (n : Nat) (v : Json) : Prop :=
  ∀ (nested : Bool) (layout : Layout) (level : Nat), ∃ ts,
    Derives .none n (.value nested v) ts ∧
      ∀ rest, Weaves ts (writeAt layout level v ++ rest) rest

namespace Layout

/-- A new line is a gap. -/
theorem isGap_newLine (width level : Nat) : ∀ c ∈ newLine width level, isGap c := by
  refine List.forall_mem_cons.mpr ⟨by decide, fun c hc => ?_⟩
  rw [List.eq_of_mem_replicate hc]
  decide

/-- Only a gap stands next to a bracket. -/
theorem isGap_edge (layout : Layout) (level : Nat) : ∀ c ∈ layout.edge level, isGap c := by
  cases layout with
  | compact => simp [edge]
  | spaced => simp [edge]
  | indented width => exact isGap_newLine width level

/-- Only a gap stands behind a comma. -/
theorem isGap_behindComma (layout : Layout) (level : Nat) :
    ∀ c ∈ layout.behindComma level, isGap c := by
  cases layout with
  | compact => simp [behindComma]
  | spaced => simp [behindComma, isGap]
  | indented width => exact isGap_newLine width level

/-- Only a gap stands behind a colon. -/
theorem isGap_behindColon (layout : Layout) : ∀ c ∈ layout.behindColon, isGap c := by
  cases layout <;> simp [behindColon, isGap]

end Layout

/-- A text is written as a string literal of it. -/
theorem weaves_writeString (t : Text) :
    ∃ content ps, Spells .double content ps ∧ joined ps = t ∧
      ∀ rest, Weaves [.literal .double content] (writeString t ++ rest) rest := by
  obtain ⟨ps, hspells, hjoined⟩ := spells_flatMap_writePoint t
  refine ⟨_, ps, hspells, hjoined, fun rest => ?_⟩
  have h := weaves_literal (t.flatMap writePoint) rest
  rw [writeString]
  simp only [List.cons_append, List.append_assoc, List.nil_append]
  exact h

/-- A key is written as a string literal of it, with a colon behind it. -/
theorem weaves_writeKey [Alphabet] (layout : Layout) (key : Text) :
    ∃ tok, Names .none tok key ∧ ∀ ts (t rest : Text), Weaves ts t rest →
      Weaves (tok :: .punctuation (.scalar ':') :: ts) (writeKey layout key ++ t) rest := by
  obtain ⟨content, ps, hspells, rfl, hweaves⟩ := weaves_writeString key
  refine ⟨_, .double hspells, fun ts t rest h => ?_⟩
  rw [writeKey]
  simp only [List.append_assoc, List.cons_append]
  exact (hweaves _).append ((weaves_punctuation _ _).append (h.gap_append layout.isGap_behindColon))

/-- Items are written if each of them is. -/
theorem writes_items [Alphabet] {n : Nat} {item : Json} {items : List Json}
    (h : ∀ v ∈ item :: items, Writes n v) (layout : Layout) (level : Nat) :
    ∃ ts, Derives .none n (.items (item :: items)) ts ∧
      ∀ rest, Weaves ts
        (writeAt layout level item ++ (writeItems layout level items ++ rest)) rest := by
  obtain ⟨ts, hderives, hweaves⟩ := h item List.mem_cons_self true layout level
  induction items generalizing item ts with
  | nil => exact ⟨ts, .item hderives, fun rest => by rw [writeItems]; exact hweaves rest⟩
  | cons next items ih =>
    have hrest : ∀ v ∈ next :: items, Writes n v := fun v hv => h v (List.mem_cons_of_mem _ hv)
    obtain ⟨ts1, hderives1, hweaves1⟩ := hrest next List.mem_cons_self true layout level
    obtain ⟨ts2, hderives2, hweaves2⟩ := ih hrest ts1 hderives1 hweaves1
    refine ⟨_, .consItem hderives hderives2, fun rest => ?_⟩
    rw [writeItems]
    simp only [List.cons_append, List.append_assoc]
    exact (hweaves _).append ((weaves_punctuation _ _).append
      ((hweaves2 rest).gap_append (layout.isGap_behindComma level)))

/-- Members are written if each of their values is. -/
theorem writes_members [Alphabet] {n : Nat} {m : Text × Json} {ms : List (Text × Json)}
    (h : ∀ v ∈ m :: ms, Writes n v.2) (layout : Layout) (level : Nat) :
    ∃ ts, Derives .none n (.members (m :: ms)) ts ∧
      ∀ rest, Weaves ts (writeKey layout m.1 ++ (writeAt layout level m.2 ++
        (writeMembers layout level ms ++ rest))) rest := by
  obtain ⟨tok, hnames, hkey⟩ := weaves_writeKey layout m.1
  obtain ⟨ts, hderives, hweaves⟩ := h m List.mem_cons_self true layout level
  induction ms generalizing m tok ts with
  | nil =>
    refine ⟨_, .member hnames hderives, fun rest => ?_⟩
    rw [writeMembers]
    exact hkey ts _ rest (hweaves rest)
  | cons next ms ih =>
    have hrest : ∀ v ∈ next :: ms, Writes n v.2 := fun v hv => h v (List.mem_cons_of_mem _ hv)
    obtain ⟨tok1, hnames1, hkey1⟩ := weaves_writeKey layout next.1
    obtain ⟨ts1, hderives1, hweaves1⟩ := hrest next List.mem_cons_self true layout level
    obtain ⟨ts2, hderives2, hweaves2⟩ :=
      ih hrest tok1 hnames1 hkey1 ts1 hderives1 hweaves1
    refine ⟨_, .consMember hnames hderives hderives2, fun rest => ?_⟩
    have hbehind := (weaves_punctuation (.scalar ',') _).append
      ((hweaves2 rest).gap_append (layout.isGap_behindComma level))
    have hall := hkey _ _ rest ((hweaves _).append hbehind)
    rw [writeMembers]
    simp only [List.cons_append, List.append_assoc, List.nil_append] at hall ⊢
    exact hall

/-- What is written between two brackets is woven if what stands inside is. -/
theorem weaves_enclosed (opening closing : CodePoint) (layout : Layout) (level : Nat) (rest : Text)
    {ts : List Token} {t : Text}
    (h : Weaves ts t (layout.edge level ++ closing :: rest)) :
    Weaves (.punctuation opening :: (ts ++ [.punctuation closing]))
      (opening :: (layout.edge (level + 1) ++ t)) rest := by
  have hclose := (weaves_punctuation closing rest).gap_append (layout.isGap_edge level)
  have hinside := (h.append hclose).gap_append (layout.isGap_edge (level + 1))
  exact (weaves_punctuation opening _).append hinside

/-- A value that fits is written as strict JSON. -/
theorem Fits.writes [Alphabet] {n : Nat} {v : Json} (h : Fits n v) : Writes n v := by
  induction h with
  | null => exact fun _ _ _ => ⟨_, .null, weaves_token (.atom "null")⟩
  | bool b =>
    intro _ _ _
    refine ⟨_, .bool b, fun rest => ?_⟩
    cases b with
    | true => exact weaves_token (.atom "true") rest
    | false => exact weaves_token (.atom "false") rest
  | int hi =>
    intro _ _ _
    obtain ⟨numeral, hspells, hdenotes⟩ := spells_ofInt hi
    exact ⟨_, .number hspells hdenotes, weaves_token (.atom _)⟩
  | float x =>
    intro _ _ _
    obtain ⟨numeral, hspells, hdenotes⟩ := spells_ofBinary64 x
    exact ⟨_, .number hspells hdenotes, weaves_token (.atom _)⟩
  | str t =>
    intro _ _ _
    obtain ⟨content, ps, hspells, rfl, hweaves⟩ := weaves_writeString t
    exact ⟨_, .string hspells, hweaves⟩
  | @arr n vs h ih =>
    intro _ layout level
    cases vs with
    | nil =>
      exact ⟨_, .emptyArray, fun rest =>
        (weaves_punctuation (.scalar '[') _).append (weaves_punctuation (.scalar ']') rest)⟩
    | cons item items =>
      obtain ⟨ts, hderives, hweaves⟩ := writes_items ih layout (level + 1)
      refine ⟨_, .array hderives (.inl rfl), fun rest => ?_⟩
      have henclosed := weaves_enclosed (.scalar '[') (.scalar ']') layout level rest (hweaves _)
      rw [writeAt]
      simp only [List.cons_append, List.append_assoc, List.nil_append]
      exact henclosed
  | @obj n ms hkeys h ih =>
    intro _ layout level
    cases ms with
    | nil =>
      exact ⟨_, .emptyObject, fun rest =>
        (weaves_punctuation (.scalar '{') _).append (weaves_punctuation (.scalar '}') rest)⟩
    | cons m ms =>
      obtain ⟨ts, hderives, hweaves⟩ := writes_members ih layout (level + 1)
      rw [← ofPairs_eq_self hkeys]
      refine ⟨_, .object hderives (.inl rfl), fun rest => ?_⟩
      have henclosed := weaves_enclosed (.scalar '{') (.scalar '}') layout level rest (hweaves _)
      rw [ofPairs_eq_self hkeys, writeAt]
      simp only [List.cons_append, List.append_assoc, List.nil_append]
      exact henclosed

/-- A value that fits is written as a strict document of it. -/
theorem Fits.document [Platform] {v : Json} (h : Fits Platform.maxDepth v) (layout : Layout) :
    Document .none v (write layout v) := by
  obtain ⟨ts, hderives, hweaves⟩ := h.writes false layout 0
  refine ⟨ts, hderives, ?_⟩
  have hall := hweaves [] [] (.nil (.inl .nil))
  rw [List.append_nil, List.append_nil] at hall
  exact hall

/-- Every value of a document fits. -/
theorem Document.fits [Platform] {s : Repair.Settings} {v : Json} {t : Text} (h : Document s v t) :
    Fits Platform.maxDepth v := by
  obtain ⟨ts, hderives, -⟩ := h
  exact hderives.fits

end SourcePress.Json
