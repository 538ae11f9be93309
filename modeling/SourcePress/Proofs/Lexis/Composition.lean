import SourcePress.Proofs.Lexis.Reading

/-!
# Scans of texts put together

Where a text ends in live code, with no backslash that waits for what it escapes, a scan goes on
behind it as at the start of a text. Only a live solidus at the end may still become the first half
of a marker. Without any condition the scan of a text foretells, up to its last code point, the
scan of every text that goes on from it.
-/

namespace SourcePress.Lexis

/-- The items that a whole scan yields: each mark with its offset. -/
def scanItems (t : Text) : List (Mark × Nat) :=
  (Cursor.ofText t).restart.drain.1.map fun s => (s.mark, s.index)

/-- The status that a whole scan leaves behind. -/
def scanEnd (t : Text) : Status := (Cursor.ofText t).restart.drain.2.status

/-- True of a text that ends in a live solidus which no backslash escapes. -/
def EndsInSolidus (t : Text) : Prop :=
  ∃ front, t = front ++ [.scalar '/'] ∧ ¬Escapes front ∧ ∀ m ∈ (scan t).getLast?, m.isLive = true

/-- True of a text whose first code point makes a marker of a solidus in front of it. -/
def CompletesMarker (t : Text) : Prop :=
  t.head? = some (.scalar '/') ∨ t.head? = some (.scalar '*')

/-- What the scan of two texts put together gives where it goes on in the second one as at the
start of a text. -/
structure ScansInParts (t u : Text) : Prop where
  /-- The items are those of both texts, the offsets of the second one moved on. -/
  items : scanItems (t ++ u) =
    scanItems t ++ (scanItems u).map fun item => (item.1, t.length + item.2)
  /-- The scan ends in the region in which the second text ends. -/
  region : (scanEnd (t ++ u)).region = (scanEnd u).region
  /-- The texts are terminated if the second one is. -/
  terminated : (scanEnd (t ++ u)).isTerminated = (scanEnd u).isTerminated
  /-- The construct that is still open is that of the second text, moved on. -/
  openStart : (scanEnd (t ++ u)).openStart? = (scanEnd u).openStart?.map (t.length + ·)

/-- The stops of a text are its marks, numbered from the first offset on. -/
theorem map_item_stopsFrom (mode : Mode) (opened : Option Nat) (index : Nat) (t : Text) :
    ((stopsFrom mode opened index t).map fun s => (s.mark, s.index)) =
      (scanFrom mode t).zipIdx index := by
  induction t generalizing mode opened index with
  | nil => rfl
  | cons c t ih => rw [stopsFrom, List.map_cons, ih, scanFrom, List.zipIdx_cons]

/-- The items of a scan are the marks with their offsets. -/
theorem scanItems_eq (t : Text) : scanItems t = (scan t).zipIdx := by
  rw [scanItems, drain_restart, stops, map_item_stopsFrom]
  rfl

/-- A scan leaves the final status of the text behind. -/
theorem scanEnd_eq (t : Text) : scanEnd t = .final t := by
  rw [scanEnd, drain_restart]

/-- In live code that is not escaped, a code point behind which the code goes on opened nothing, and
only a backslash escapes what follows it. -/
theorem opening?_of_after {c : CodePoint} {next : Option CodePoint} {e : Bool}
    (h : (Mode.code false).after c next = .code e) :
    Mode.opening? c next = none ∧ e = decide (c = .scalar '\\') := by
  rw [Mode.after] at h
  cases hopen : Mode.opening? c next with
  | none =>
    rw [hopen] at h
    cases h
    exact ⟨rfl, rfl⟩
  | some mode =>
    rw [hopen] at h
    exact absurd h (ne_code_of_opening? hopen e)

/-- A block comment is about to close only before a solidus. -/
theorem next_of_blockClosing {mode : Mode} {c : CodePoint} {next : Option CodePoint}
    (h : mode.after c next = .blockClosing) : next = some (.scalar '/') := by
  cases mode with
  | blockComment =>
    rw [Mode.after] at h
    split at h
    · next hclose => exact hclose.2
    · cases h
  | code escaped =>
    cases escaped with
    | true => cases h
    | false =>
      rw [Mode.after, Mode.opening?] at h
      split at h
      · cases h
      · split_ifs at h <;> cases h
  | string q escaped =>
    cases escaped with
    | true => cases h
    | false =>
      rw [Mode.after] at h
      split at h <;> cases h
  | lineComment =>
    rw [Mode.after] at h
    split at h <;> cases h
  | blockOpening => cases h
  | blockClosing => cases h

/-- One more code point is read in the mode behind those in front of it. -/
theorem modeTo_concat (mode : Mode) (t : Text) (c : CodePoint) (next : Option CodePoint) :
    modeTo mode (t ++ [c]) next = (modeTo mode t (some c)).after c next := by
  rw [modeTo_append]
  rfl

/-- The marks of a text with one more code point. -/
theorem scanTo_concat (mode : Mode) (t : Text) (c : CodePoint) (next : Option CodePoint) :
    scanTo mode (t ++ [c]) next =
      scanTo mode t (some c) ++ [(modeTo mode t (some c)).mark c next] := by
  rw [scanTo_append]
  rfl

/-- What closes a construct is no backslash. -/
theorem ne_backslash_of_after {mode : Mode} {c : CodePoint} {t : Text} {next : Option CodePoint}
    {e : Bool} (hmode : modeTo .start t (some c) = mode) (hlive : mode.region ≠ .code)
    (h : mode.after c next = .code e) : e = false ∧ c ≠ .scalar '\\' := by
  cases mode with
  | code escaped => exact absurd rfl hlive
  | string q escaped =>
    cases escaped with
    | true => cases h
    | false =>
      rw [Mode.after] at h
      split at h
      · next hc =>
        cases h
        exact ⟨rfl, by rw [hc]; cases q <;> decide⟩
      · cases h
  | lineComment =>
    rw [Mode.after] at h
    split at h
    · next hc =>
      cases h
      refine ⟨rfl, ?_⟩
      rintro rfl
      cases hc
    · cases h
  | blockOpening => cases h
  | blockComment =>
    rw [Mode.after] at h
    split at h <;> cases h
  | blockClosing =>
    cases h
    refine ⟨rfl, ?_⟩
    rintro rfl
    rcases List.eq_nil_or_concat' t with rfl | ⟨t, d, rfl⟩
    · cases hmode
    · rw [modeTo_concat] at hmode
      cases next_of_blockClosing hmode

/-- In live code a code point is escaped by the backslashes at the end of what is in front of it. -/
theorem escapes_of_modeTo {t : Text} {next : Option CodePoint} {e : Bool}
    (h : modeTo .start t next = .code e) : e = true ↔ Escapes t := by
  induction t using List.reverseRecOn generalizing next e with
  | nil =>
    cases h
    simp [Escapes, backslashesAtEnd]
  | append_singleton t c ih =>
    rw [modeTo_concat] at h
    rw [escapes_concat]
    by_cases hlive : (modeTo .start t (some c)).region = .code
    · cases hmode : modeTo .start t (some c) with
      | code escaped =>
        have hi := ih hmode
        rw [hmode] at h
        cases escaped with
        | true =>
          cases h
          simpa using fun _ => hi.mp rfl
        | false =>
          rw [(opening?_of_after h).2]
          simpa using fun _ => mt hi.mpr Bool.false_ne_true
      | _ =>
        rw [hmode] at hlive
        cases hlive
    · obtain ⟨rfl, hc⟩ := ne_backslash_of_after rfl hlive h
      simp [hc]

/-- A text ends in live code that escapes nothing exactly if its scan ends in live code and no
backslash at its end waits for what it escapes. -/
theorem finalMode_eq_code_iff (t : Text) :
    finalMode t = .code false ↔ (scanEnd t).region = .code ∧ ¬Escapes t := by
  rw [scanEnd_eq, Status.final]
  constructor
  · intro h
    refine ⟨by rw [h]; rfl, fun hescape => ?_⟩
    rw [finalMode_eq_modeTo] at h
    exact Bool.false_ne_true ((escapes_of_modeTo h).mpr hescape)
  · rintro ⟨hregion, hescape⟩
    cases hmode : finalMode t with
    | code e =>
      rw [finalMode_eq_modeTo] at hmode
      cases e with
      | false => rfl
      | true => exact absurd ((escapes_of_modeTo hmode).mp rfl) hescape
    | _ =>
      rw [hmode] at hregion
      cases hregion

/-- A code point behind which the code goes on is read alike before anything, unless it is a live
solidus that a marker may begin with. -/
theorem read_alike {mode : Mode} {c : CodePoint} {next : Option CodePoint}
    (h : mode.after c none = .code false)
    (hsolidus : ¬(mode = .code false ∧ c = .scalar '/' ∧
      (next = some (.scalar '/') ∨ next = some (.scalar '*')))) :
    mode.mark c next = mode.mark c none ∧ mode.after c next = .code false := by
  cases mode with
  | code escaped =>
    cases escaped with
    | true => exact ⟨rfl, rfl⟩
    | false =>
      have hnone := (opening?_of_after h).1
      have hopen : Mode.opening? c next = none := by
        by_cases hc : c = .scalar '/'
        · refine opening?_of_next (ofPoint?_of_opening? hnone) (fun hn => ?_) fun hn => ?_
          · exact hsolidus ⟨rfl, hc, .inl hn⟩
          · exact hsolidus ⟨rfl, hc, .inr hn⟩
        · exact opening?_of_plain (ofPoint?_of_opening? hnone) hc next
      rw [Mode.after, hnone] at h
      rw [Mode.mark, Mode.mark, Mode.after, hopen, hnone]
      exact ⟨rfl, h⟩
  | string q escaped =>
    cases escaped with
    | true => cases h
    | false => exact ⟨rfl, h⟩
  | lineComment => exact ⟨rfl, h⟩
  | blockOpening => cases h
  | blockComment =>
    rw [Mode.after, if_neg (by simp)] at h
    cases h
  | blockClosing => exact ⟨rfl, rfl⟩

/-- Behind a text that ends in live code the scan goes on as at the start of a text. -/
theorem scan_append_of_live {t u : Text} (hlive : finalMode t = .code false)
    (hsolidus : ¬(EndsInSolidus t ∧ CompletesMarker u)) :
    scan (t ++ u) = scan t ++ scan u ∧ finalMode (t ++ u) = finalMode u := by
  have hread : scanTo .start t u.head? = scan t ∧ modeTo .start t u.head? = .start := by
    rw [finalMode, modeAfter_eq_modeTo] at hlive
    rw [scan, scanFrom_eq_scanTo]
    rcases List.eq_nil_or_concat' t with rfl | ⟨front, c, rfl⟩
    · exact ⟨rfl, rfl⟩
    · rw [modeTo_concat] at hlive ⊢
      rw [scanTo_concat, scanTo_concat]
      -- Only the last code point of the first text looks into the second one.
      have hplain : ¬(modeTo .start front (some c) = .code false ∧ c = .scalar '/' ∧
          CompletesMarker u) := by
        rintro ⟨hmode, rfl, hmarker⟩
        refine hsolidus ⟨⟨front, rfl, ?_, ?_⟩, hmarker⟩
        · exact mt (escapes_of_modeTo hmode).mpr Bool.false_ne_true
        · rw [scan, scanFrom_eq_scanTo, scanTo_concat, List.getLast?_concat, hmode]
          simp [Mode.mark, Mark.isLive, Region.isLive, Mode.opening?, Quote.ofPoint?]
      obtain ⟨hmark, hafter⟩ := read_alike hlive hplain
      exact ⟨by rw [hmark], hafter⟩
  rw [scan, finalMode, scanFrom_append, modeAfter_append, hread.1, hread.2]
  exact ⟨rfl, rfl⟩

/-- A text that does not end in live code leaves a construct open. -/
theorem exists_openStart? {t : Text} (h : (finalMode t).region.isLive = false) :
    ∃ n, openStart? t = some n := by
  have hne : t ≠ [] := by
    rintro rfl
    cases h
  obtain ⟨front, s, -, ⟨-, -, -, hstart⟩ | ⟨-, hmode⟩⟩ := exists_last_segment hne
  · exact ⟨s.start, hstart⟩
  · rw [hmode] at h
    cases h

/-- The construct that the end of a second text leaves open is the one of the texts put together. -/
theorem openStart?_append_of_live {t u : Text} (hscan : scan (t ++ u) = scan t ++ scan u)
    (hmode : finalMode (t ++ u) = finalMode u) :
    openStart? (t ++ u) = (openStart? u).map (t.length + ·) := by
  have hlength : (scan t).length = t.length := length_scanFrom _ _
  cases hlive : (finalMode u).region.isLive with
  | true => rw [openStart?, openStart?, hmode, if_pos hlive, if_pos hlive]; rfl
  | false =>
    obtain ⟨n, hopen⟩ := exists_openStart? hlive
    have hlast : lastOpening? (scan u) = some n := by
      rwa [openStart?, hlive, if_neg Bool.false_ne_true] at hopen
    rw [hopen, openStart?, hmode, hlive, if_neg Bool.false_ne_true, hscan, lastOpening?_append,
      hlast, hlength]
    rfl

/-- Up to the last code point of a text the stops do not hang on what follows the text. -/
theorem take_stopsFrom_append (mode : Mode) (opened : Option Nat) (index : Nat) (t u : Text) :
    (stopsFrom mode opened index (t ++ u)).take (t.length - 1) =
      (stopsFrom mode opened index t).take (t.length - 1) := by
  induction t generalizing mode opened index with
  | nil => rfl
  | cons c t ih =>
    cases t with
    | nil => rfl
    | cons d t =>
      have hi := ih (mode.after c (some d))
        (if (mode.mark c (some d)).opens then some index else opened) (index + 1)
      exact congrArg (List.cons _) hi

/-- Where a text ends in live code that waits for nothing, and no marker begins at its end, the scan
of a text put behind it follows. In any case the scan up to the last code point is foretold. -/
theorem scan_composes (t u : Text) :
    ((scanEnd t).region = .code → ¬Escapes t → ¬(EndsInSolidus t ∧ CompletesMarker u) →
      ScansInParts t u) ∧
      (scanItems (t ++ u)).take (t.length - 1) = (scanItems t).take (t.length - 1) := by
  refine ⟨fun hregion hescape hsolidus => ?_, ?_⟩
  · have hlive := (finalMode_eq_code_iff t).mpr ⟨hregion, hescape⟩
    obtain ⟨hscan, hmode⟩ := scan_append_of_live hlive hsolidus
    have hlength : (scan t).length = t.length := length_scanFrom _ _
    have hend : (scanEnd (t ++ u)).region = (scanEnd u).region := by
      rw [scanEnd_eq, scanEnd_eq, Status.final, hmode]
      rfl
    exact
      { items := by
          rw [scanItems_eq, scanItems_eq, scanItems_eq, hscan, List.zipIdx_append, Nat.zero_add,
            hlength, ← List.zipIdx_eq_map_add]
        region := hend
        terminated := by rw [Status.isTerminated, Status.isTerminated, hend]
        openStart := by
          rw [scanEnd_eq, scanEnd_eq, openStart?_final, openStart?_final,
            openStart?_append_of_live hscan hmode] }
  · rw [scanItems, scanItems, drain_restart, drain_restart, ← List.map_take, ← List.map_take, stops,
      stops, take_stopsFrom_append]

/-- Code that ends in a solidus behind a backslash. -/
def escapedSolidusSample : Text := "f('//')\\/"

/-- Behind an escaped solidus another one begins no marker with it. -/
theorem scan_composes_sample :
    ((scanEnd escapedSolidusSample).region = .code ∧ ¬Escapes escapedSolidusSample ∧
      ¬(EndsInSolidus escapedSolidusSample ∧ CompletesMarker "/ 'a")) ∧
      ScansInParts escapedSolidusSample "/ 'a" := by
  have hregion : (scanEnd escapedSolidusSample).region = .code := by decide
  have hescape : ¬Escapes escapedSolidusSample := by
    unfold Escapes
    decide
  have hsolidus : ¬(EndsInSolidus escapedSolidusSample ∧ CompletesMarker "/ 'a") := by
    rintro ⟨⟨front, hfront, hnot, -⟩, -⟩
    have hcut : front = escapedSolidusSample.dropLast := by rw [hfront, List.dropLast_concat]
    refine hnot ?_
    rw [hcut]
    unfold Escapes
    decide
  exact ⟨⟨hregion, hescape, hsolidus⟩, (scan_composes _ _).1 hregion hescape hsolidus⟩

example : scan "/" ++ scan "/" ≠ scan "//" := by decide

end SourcePress.Lexis
