import SourcePress.Proofs.Lexis.Spans

/-!
# The scan of a masked text

A fill that begins no construct, ends none and escapes nothing leaves of a text only its live code:
each live code point is read in the mask as it was in the text, for the fill in front of it closes
nothing and escapes nothing, and the fill behind it makes no marker of a solidus. So a mask is its
own mask, and what is found in it between the fills is found at the same offsets in the text.
-/

namespace SourcePress.Lexis

/-- True of a fill that means nothing to a scan: no quote, no part of a marker, no backslash. -/
def IsInert (fill : CodePoint) : Prop :=
  fill ∉ ([.scalar '"', .scalar '\'', .scalar '\x60', .scalar '/', .scalar '*',
    .scalar '\\'] : Text)

instance (fill : CodePoint) : Decidable (IsInert fill) := inferInstanceAs (Decidable (¬_))

/-- What a mask of a text must be. -/
structure IsMaskOf (fill : CodePoint) (t m : Text) : Prop where
  /-- It has the length of the text. -/
  length : m.length = t.length
  /-- It has the code points of the text where they are live. -/
  live : ∀ (i : Nat) (mark : Mark), (scan t)[i]? = some mark → mark.isLive = true → m[i]? = t[i]?
  /-- It has the fill everywhere else. -/
  inert : ∀ (i : Nat) (mark : Mark), (scan t)[i]? = some mark → mark.isLive = false →
    m[i]? = some fill
  /-- All of it is code. -/
  code : ∀ mark ∈ scan m, mark.region = .code
  /-- It is its own mask. -/
  stable : maskWith [fill] m = .ok m
  /-- A part of it lies at the same offsets in the text, and is that part of the text if there is no
  fill in it. -/
  found : ∀ front word back, m = front ++ word ++ back → ∃ front' word' back',
    t = front' ++ word' ++ back' ∧ front'.length = front.length ∧ word'.length = word.length ∧
      (fill ∉ word → word' = word)

/-- The mask of a text that is read from a mode. -/
def maskFrom (fill : CodePoint) (mode : Mode) (t : Text) : Text :=
  (scanFrom mode t).map (Mark.masked fill)

/-- The mode in which a mask is read where its text is read in a mode. -/
def Mode.masked : Mode → Mode
  | code escaped => .code escaped
  | string _ _ | lineComment | blockOpening | blockComment | blockClosing => .code false

/-- A mask begins with the first code point of its text or with the fill. -/
theorem head?_maskFrom (fill : CodePoint) (mode : Mode) (t : Text) :
    (maskFrom fill mode t).head? = t.head? ∨ (maskFrom fill mode t).head? = some fill := by
  cases t with
  | nil => exact .inl rfl
  | cons c t =>
    rw [maskFrom, scanFrom, List.map_cons, List.head?_cons, List.head?_cons, Mark.masked,
      mark_point]
    split
    · exact .inl rfl
    · exact .inr rfl

section Reading

variable {fill : CodePoint}

/-- An inert fill is read as code that opens nothing and escapes nothing. -/
theorem IsInert.read (h : IsInert fill) (next : Option CodePoint) :
    (Mode.code false).mark fill next = Region.code.mark fill ∧
      (Mode.code false).after fill next = .code false := by
  simp only [IsInert, List.mem_cons, List.not_mem_nil, or_false, not_or] at h
  obtain ⟨hdouble, hsingle, hbacktick, hsolidus, -, hescape⟩ := h
  have hquote : Quote.ofPoint? fill = none := by
    rw [Quote.ofPoint?, if_neg hdouble, if_neg hsingle, if_neg hbacktick]
  have hread := read_point (e := false) (.inr (opening?_of_plain hquote hsolidus next))
  rw [decide_eq_false hescape] at hread
  exact hread

/-- What opens nothing in a text opens nothing in its mask. -/
theorem IsInert.opening? (h : IsInert fill) {c : CodePoint} {next next' : Option CodePoint}
    (hopen : Mode.opening? c next = none) (hnext : next' = next ∨ next' = some fill) :
    Mode.opening? c next' = none := by
  rcases hnext with rfl | rfl
  · exact hopen
  · simp only [IsInert, List.mem_cons, List.not_mem_nil, or_false, not_or] at h
    refine opening?_of_next (ofPoint?_of_opening? hopen) ?_ ?_
    · simpa using h.2.2.2.1
    · simpa using h.2.2.2.2.1

/-- A code point outside live code is masked, and the mask stays in live code. -/
theorem IsInert.read_masked (h : IsInert fill) {m : Mark} (hm : m.isLive = false) {mode : Mode}
    (hmode : mode.masked = .code false) (next : Option CodePoint) :
    (Mode.code false).mark (m.masked fill) next = Region.code.mark (m.masked fill) ∧
      (Mode.code false).after (m.masked fill) next = mode.masked := by
  rw [Mark.masked, hm, if_neg Bool.false_ne_true, hmode]
  exact h.read next

/-- One step of the scan of a mask: what is read is code, and the mode is that of the text where the
text is live. -/
theorem IsInert.step (h : IsInert fill) (mode : Mode) (c : CodePoint)
    {next next' : Option CodePoint} (hnext : next' = next ∨ next' = some fill) :
    mode.masked.mark ((mode.mark c next).masked fill) next' =
        Region.code.mark ((mode.mark c next).masked fill) ∧
      mode.masked.after ((mode.mark c next).masked fill) next' = (mode.after c next).masked := by
  cases mode with
  | code escaped =>
    by_cases hopen : escaped = true ∨ Mode.opening? c next = none
    · have hread := read_point hopen
      have hread' := read_point (hopen.imp_right fun hnone => h.opening? hnone hnext)
      rw [hread.1, hread.2]
      exact hread'
    -- what opens is masked, so the mask stays in live code where the text leaves it
    · obtain ⟨hescaped, hsome⟩ := not_or.mp hopen
      obtain ⟨opened, hopened⟩ := Option.ne_none_iff_exists'.mp hsome
      obtain rfl := Bool.eq_false_of_not_eq_true hescaped
      rw [Mode.mark, Mode.after, hopened]
      have hne := ne_code_of_opening? hopened
      refine h.read_masked ?_ ?_ next'
      · cases opened <;> first | exact absurd rfl (hne _) | rfl
      · cases opened <;> first | exact absurd rfl (hne _) | rfl
  | lineComment =>
    by_cases hc : c.isLineEnd
    · have hend : c = '\n' ∨ c = '\r' := by simpa [CodePoint.isLineEnd] using hc
      rcases hend with rfl | rfl <;> exact ⟨rfl, rfl⟩
    · have hafter : Mode.lineComment.after c next = .lineComment := by
        rw [Mode.after, if_neg hc]
      rw [hafter]
      refine h.read_masked ?_ rfl next'
      rw [Mode.mark, if_neg hc]
      rfl
  | string q escaped =>
    refine h.read_masked rfl ?_ next'
    cases escaped with
    | true => rfl
    | false =>
      rw [Mode.after]
      split <;> rfl
  | blockOpening => exact h.read_masked rfl rfl next'
  | blockComment =>
    refine h.read_masked rfl ?_ next'
    rw [Mode.after]
    split <;> rfl
  | blockClosing => exact h.read_masked rfl rfl next'

/-- All of a mask is read as code. -/
theorem IsInert.scanFrom_maskFrom (h : IsInert fill) (mode : Mode) (t : Text) :
    scanFrom mode.masked (maskFrom fill mode t) =
      (maskFrom fill mode t).map Region.code.mark := by
  induction t generalizing mode with
  | nil => rfl
  | cons c t ih =>
    have hcons : maskFrom fill mode (c :: t) =
        (mode.mark c t.head?).masked fill :: maskFrom fill (mode.after c t.head?) t := rfl
    have hstep := h.step mode c (head?_maskFrom fill (mode.after c t.head?) t)
    rw [hcons, scanFrom, hstep.1, hstep.2, ih, List.map_cons]

/-- All of a mask is code. -/
theorem IsInert.scan_mask (h : IsInert fill) (t : Text) :
    scan (mask fill t) = (mask fill t).map Region.code.mark :=
  h.scanFrom_maskFrom .start t

/-- A mask is its own mask. -/
theorem IsInert.mask_mask (h : IsInert fill) (t : Text) :
    mask fill (mask fill t) = mask fill t := by
  have hlive : ∀ c, (Region.code.mark c).masked fill = c := fun c => rfl
  rw [mask, h.scan_mask, List.map_map]
  exact (List.map_congr_left fun c _ => hlive c).trans (List.map_id _)

end Reading

/-- Each place of a mask is that of its text if it is live, and the fill if not. -/
theorem getElem?_mask (fill : CodePoint) {t : Text} {i : Nat} {m : Mark}
    (h : (scan t)[i]? = some m) :
    (mask fill t)[i]? = (if m.isLive then t[i]? else some fill) ∧ t[i]? = some m.point := by
  have hpoints : points (scan t) = t := points_scanFrom _ _
  have hpoint : t[i]? = some m.point := by
    rw [← hpoints, points, List.getElem?_map, h]
    rfl
  refine ⟨?_, hpoint⟩
  rw [mask, List.getElem?_map, h, hpoint, Option.map_some, Mark.masked]
  split <;> rfl

/-- What is not the fill in a part of a mask is that part of the text. -/
theorem exists_part_of_mask {fill : CodePoint} {t front word back : Text}
    (h : mask fill t = front ++ word ++ back) : ∃ front' word' back',
      t = front' ++ word' ++ back' ∧ front'.length = front.length ∧
        word'.length = word.length ∧ (fill ∉ word → word' = word) := by
  rw [mask, List.map_eq_append_iff] at h
  obtain ⟨marks, behind, hscan, hmarks, -⟩ := h
  obtain ⟨before, inside, rfl, hfront, hword⟩ := List.map_eq_append_iff.mp hmarks
  have hpoints : points (scan t) = t := points_scanFrom _ _
  refine ⟨points before, points inside, points behind, ?_, ?_, ?_, fun hfill => ?_⟩
  · rw [← hpoints, hscan, points_append, points_append]
  · rw [← hfront, points, List.length_map, List.length_map]
  · rw [← hword, points, List.length_map, List.length_map]
  · rw [← hword, points]
    refine List.map_congr_left fun m hm => ?_
    rw [Mark.masked, if_pos]
    by_contra hlive
    refine hfill (hword ▸ List.mem_map.mpr ⟨m, hm, ?_⟩)
    rw [Mark.masked, if_neg hlive]

/-- With a fill that is inert, masking leaves of every text its live code and nothing else. -/
theorem maskWith_leaves_code {fill : CodePoint} (h : IsInert fill) (t : Text) :
    ∃ m, maskWith [fill] t = .ok m ∧ IsMaskOf fill t m := by
  refine ⟨mask fill t, rfl, ?_⟩
  exact
    { length := length_mask fill t
      live := fun i m hm hlive => by rw [(getElem?_mask fill hm).1, if_pos hlive]
      inert := fun i m hm hlive => by
        rw [(getElem?_mask fill hm).1, hlive, if_neg Bool.false_ne_true]
      code := fun m hm => by
        rw [h.scan_mask] at hm
        obtain ⟨c, -, rfl⟩ := List.mem_map.mp hm
        rfl
      stable := congrArg Except.ok (h.mask_mask t)
      found := fun front word back hcut => exists_part_of_mask hcut }

/-- The usual fill is inert. -/
theorem maskWith_inertFill :
    IsInert inertFill ∧ ∃ m, maskWith [inertFill] "a\\'/'b'/*c*//" = .ok m ∧
      IsMaskOf inertFill "a\\'/'b'/*c*//" m :=
  ⟨by decide, maskWith_leaves_code (by decide) _⟩

end SourcePress.Lexis
