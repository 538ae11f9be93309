import SourcePress.Proofs.Repair.Fusion
import SourcePress.Proofs.Repair.Splice
import SourcePress.Repair.Pipeline

/-!
# The repair as one pass

Each step of the repair edits a text at its sites, which is to mend its lexemes. No edits overlap,
so the only fault of a repair is that bare values were found. The steps together mend the lexemes
of the text once, with the remedies that the settings ask for.
-/

namespace SourcePress.Repair

open Lexis

/-- No remedy at all. -/
def noRemedies : Remedies := ⟨fun _ _ => false, fun _ _ => false, fun _ _ => false⟩

/-- A comma before a closing bracket is dropped. -/
def commaRemedies : Remedies :=
  { noRemedies with drops := fun _ after => Closes (after CodePoint.isSpacing) }

/-- A word between a brace or a comma and a colon gets quotation marks. -/
def keyRemedies : Remedies :=
  { noRemedies with
    quotes := fun before after =>
      PrecedesKey (before CodePoint.isSpacing) ∧ after CodePoint.isSpacing = some (.scalar ':') }

/-- A single-quoted literal that stands for a target gets quotation marks. -/
def quoteRemedies (target : QuoteTarget) : Remedies :=
  { noRemedies with
    requotes := fun before after =>
      target.accepts (before CodePoint.isBlank) (after CodePoint.isBlank) }

theorem commaRemedies_drops {before after : Neighbour} :
    commaRemedies.drops before after = true ↔ Closes (after CodePoint.isSpacing) :=
  decide_eq_true_iff

theorem keyRemedies_quotes {before after : Neighbour} :
    keyRemedies.quotes before after = true ↔
      PrecedesKey (before CodePoint.isSpacing) ∧ after CodePoint.isSpacing = some (.scalar ':') :=
  decide_eq_true_iff

/-- Remedies that a switch turns off. -/
def Remedies.onlyIf (on : Bool) (r : Remedies) : Remedies := if on then r else noRemedies

/-- The remedies of the repair under settings. -/
def remedies (s : Settings) : Remedies :=
  (((commaRemedies.onlyIf s.removeTrailingCommas).join (keyRemedies.onlyIf s.quoteKeys)).join
    ((quoteRemedies .keys).onlyIf s.convertSingleQuotes)).join
      ((quoteRemedies .values).onlyIf s.convertSingleQuotes)

/-- What a rule leaves at its sites is what remedies leave of the lexemes, if they agree at each. -/
theorem rewritten_sitesFrom [Alphabet] {blank : CodePoint → Bool} {rule : Site → Option Text} {r : Remedies}
    {offset : Nat} {before : Neighbour} {ls : List Lexeme}
    (h : ∀ front l rest, ls = front ++ l :: rest → ∀ before : Neighbour,
      (rule ⟨offset + front.flatten.length, before blank, l, rest⟩).getD (points l) =
        spelled (r.apply before (ahead rest) l)) :
    rewritten rule (sitesFrom blank offset (before blank) ls) =
      spelled (mendFrom r before ls) := by
  induction ls generalizing offset before with
  | nil => rfl
  | cons l rest ih =>
    have hhead := h [] l rest rfl before
    have htail := @ih (offset + l.length) (behind before l) fun front l' rest'
        hls before' => by
      have hl := h (l :: front) l' rest' (by rw [hls, List.cons_append]) before'
      rw [List.flatten_cons, List.length_append, ← Nat.add_assoc] at hl
      exact hl
    rw [sitesFrom, rewritten, List.flatMap_cons, mendFrom, spelled_append, ← hhead, ← htail]
    rfl

/-- A text is mended by the edits of a rule that agrees with remedies at each of its sites. -/
theorem applyEdits_eq_mendFrom [Alphabet] {blank : CodePoint → Bool} {rule : Site → Option Text}
    {r : Remedies} {ls : List Lexeme} (hls : Lexed false ls)
    (h : ∀ front l rest, ls = front ++ l :: rest → ∀ before : Neighbour,
      (rule ⟨front.flatten.length, before blank, l, rest⟩).getD (points l) =
        spelled (r.apply before (ahead rest) l)) :
    applyEdits (spelled ls) (editsAt rule (sites blank (spelled ls))) =
      .ok (spelled (mendFrom r noNeighbour ls)) := by
  have hrewritten := @rewritten_sitesFrom _ blank rule r 0 noNeighbour ls (by simpa using h)
  rw [applyEdits_editsAt, sites, hls.lexemes_scan]
  exact congrArg _ hrewritten

/-- The edits of a rule as they are made one by one. -/
theorem editsAt_eq (p : Site → Bool) (f : Site → Text) (ss : List Site) :
    (ss.filterMap fun s =>
      if p s then some (⟨s.offset, s.offset + s.lexeme.length, f s⟩ : Edit) else none) =
      editsAt (fun s => if p s then some (f s) else none) ss := by
  rw [editsAt]
  congr 1
  funext s
  split <;> rfl

/-- Taking trailing commas out is mending. -/
theorem removeTrailingCommas_spelled [Alphabet] {ls : List Lexeme} (h : Lexed false ls) :
    removeTrailingCommas (spelled ls) = .ok (spelled (mendFrom commaRemedies noNeighbour ls)) := by
  rw [removeTrailingCommas, trailingCommaEdits, editsAt_eq isTrailingComma fun _ => []]
  refine applyEdits_eq_mendFrom h fun front l rest _ before => ?_
  have hcomma : isTrailingComma ⟨front.flatten.length, before CodePoint.isSpacing, l, rest⟩ ↔
      Lexeme.front? l = some (.scalar ',') ∧ commaRemedies.drops before (ahead rest) := by
    rw [commaRemedies_drops]
    simp [isTrailingComma, Closes, ahead]
  rw [Remedies.apply]
  by_cases hdrop : Lexeme.front? l = some (.scalar ',') ∧ commaRemedies.drops before (ahead rest)
  · rw [if_pos hdrop, if_pos (hcomma.mpr hdrop)]
    rfl
  · rw [if_neg hdrop, if_neg (mt hcomma.mp hdrop)]
    simp [commaRemedies, noRemedies]

/-- Quoting bare keys is mending. -/
theorem quoteKeys_spelled [Alphabet] {ls : List Lexeme} (h : Lexed false ls) :
    quoteKeys (spelled ls) = .ok (spelled (mendFrom keyRemedies noNeighbour ls)) := by
  rw [quoteKeys, bareKeyEdits, editsAt_eq isBareKey fun s => doubleQuoted s.text]
  refine applyEdits_eq_mendFrom h fun front l rest _ before => ?_
  have hkey : isBareKey ⟨front.flatten.length, before CodePoint.isSpacing, l, rest⟩ ↔
      Lexeme.isWord l ∧ keyRemedies.quotes before (ahead rest) := by
    rw [keyRemedies_quotes]
    simp [isBareKey, PrecedesKey, ahead, and_assoc]
  have hdrops : keyRemedies.drops before (ahead rest) = false := rfl
  rw [Remedies.apply, hdrops]
  simp only [Bool.false_eq_true, and_false, if_false]
  by_cases hquote : Lexeme.isWord l ∧ keyRemedies.quotes before (ahead rest)
  · rw [if_pos hquote, if_pos (hkey.mpr hquote)]
    simp [doubleLiteral, doubleQuoted, Site.text, Quote.literal, Quote.point]
  · rw [if_neg hquote, if_neg (mt hkey.mp hquote)]
    simp [keyRemedies, noRemedies]

/-- Converting single-quoted strings is mending. -/
theorem convertSingleQuotes_spelled [Alphabet] (target : QuoteTarget) {ls : List Lexeme}
    (h : Lexed false ls) :
    convertSingleQuotes target (spelled ls) =
      .ok (spelled (mendFrom (quoteRemedies target) noNeighbour ls)) := by
  rw [convertSingleQuotes, singleQuoteEdits,
    editsAt_eq (isConvertible target (openStart? (spelled ls))) fun s => requote s.text]
  refine applyEdits_eq_mendFrom h fun front l rest hls before => ?_
  have hopen : Lexeme.isSingleQuoted l →
      (openStart? (spelled ls) ≠ some front.flatten.length ↔ isClosed l = true) := by
    intro hsingle
    rw [hls] at h ⊢
    rw [Ne, openStart?_eq_iff h hsingle, Bool.not_eq_false]
  have hconvertible : isConvertible target (openStart? (spelled ls))
      ⟨front.flatten.length, before CodePoint.isBlank, l, rest⟩ ↔
      (Lexeme.isSingleQuoted l ∧ isClosed l) ∧
        (quoteRemedies target).requotes before (ahead rest) := by
    by_cases hsingle : Lexeme.isSingleQuoted l
    · simp [isConvertible, hsingle, ← hopen hsingle, quoteRemedies, ahead]
    · simp [isConvertible, hsingle]
  have hdrops : (quoteRemedies target).drops before (ahead rest) = false := rfl
  have hquotes : (quoteRemedies target).quotes before (ahead rest) = false := rfl
  rw [Remedies.apply, hdrops, hquotes]
  simp only [Bool.false_eq_true, and_false, if_false]
  by_cases hquote : (Lexeme.isSingleQuoted l ∧ isClosed l) ∧
      (quoteRemedies target).requotes before (ahead rest)
  · rw [if_pos hquote, if_pos (hconvertible.mpr hquote)]
    simp [doubleLiteral, requote, contentOf, Site.text, Quote.literal, Quote.point]
  · rw [if_neg hquote, if_neg (mt hconvertible.mp hquote)]
    simp

/-- The bare values of a text are those among its lexemes. -/
theorem bareValues_spelled [Alphabet] {ls : List Lexeme} (h : Lexed false ls) :
    bareValues (spelled ls) = bareFrom noNeighbour ls := by
  have hsites : ∀ (offset : Nat) (before : Neighbour) (ls : List Lexeme),
      ((sitesFrom CodePoint.isSpacing offset (before CodePoint.isSpacing) ls).filterMap fun s =>
        if isBareValue s then some s.text else none) = bareFrom before ls := by
    intro offset before ls
    induction ls generalizing offset before with
    | nil => rfl
    | cons l rest ih =>
      have hi := ih (offset + l.length) (behind before l)
      have hbare : isBareValue ⟨offset, before CodePoint.isSpacing, l, rest⟩ =
          isBareWord (before CodePoint.isSpacing) l := rfl
      rw [sitesFrom, List.filterMap_cons, hbare, bareFrom, ← hi]
      split
      · next hnone =>
        split at hnone
        · cases hnone
        · next hfalse =>
          rw [if_neg hfalse]
          rfl
      · next word hword =>
        split at hword
        · next htrue =>
          cases hword
          rw [if_pos htrue]
          rfl
        · cases hword
  rw [bareValues, sites, h.lexemes_scan]
  exact hsites 0 noNeighbour ls

/-- Without remedies everything stays. -/
theorem mendFrom_noRemedies [Alphabet] (before : Neighbour) (ls : List Lexeme) :
    mendFrom noRemedies before ls = ls := by
  induction ls generalizing before with
  | nil => rfl
  | cons l rest ih =>
    have happly : noRemedies.apply before (ahead rest) l = [l] := by
      simp [Remedies.apply, noRemedies]
    rw [mendFrom, happly, ih, List.singleton_append]

/-- No remedy is sound. -/
theorem sound_noRemedies : noRemedies.Sound where
  drops h := absurd h Bool.false_ne_true
  quotes h := absurd h Bool.false_ne_true

/-- No remedy is late. -/
theorem late_noRemedies : noRemedies.Late where
  drops _ _ := rfl
  quotes _ _ := rfl
  requotes _ _ := rfl

/-- Switched remedies are sound if the remedies are. -/
theorem Remedies.Sound.onlyIf {r : Remedies} (h : r.Sound) (on : Bool) : (r.onlyIf on).Sound := by
  cases on
  · exact sound_noRemedies
  · exact h

/-- Switched remedies are late if the remedies are. -/
theorem Remedies.Late.onlyIf {r : Remedies} (h : r.Late) (on : Bool) : (r.onlyIf on).Late := by
  cases on
  · exact late_noRemedies
  · exact h

/-- Commas are dropped before closing brackets. -/
theorem sound_commaRemedies : commaRemedies.Sound where
  drops h := commaRemedies_drops.mp h
  quotes h := absurd h Bool.false_ne_true

/-- Keys are quoted behind braces and commas. -/
theorem sound_keyRemedies : keyRemedies.Sound where
  drops h := absurd h Bool.false_ne_true
  quotes h := (keyRemedies_quotes.mp h).1

/-- Literals are neither commas nor words. -/
theorem sound_quoteRemedies (target : QuoteTarget) : (quoteRemedies target).Sound where
  drops h := absurd h Bool.false_ne_true
  quotes h := absurd h Bool.false_ne_true

/-- What precedes a key is told by openers. -/
theorem precedesKey_iff {b b' : Neighbour} (h : AlikeBefore b b') {blank : CodePoint → Bool}
    (hblank : IsBlankClass blank) : PrecedesKey (b blank) ↔ PrecedesKey (b' blank) :=
  or_congr (h blank hblank _ (.inl rfl)) (h blank hblank _ (.inr (.inr (.inl rfl))))

/-- Keys are told by openers and colons. -/
theorem late_keyRemedies : keyRemedies.Late where
  drops _ _ := rfl
  quotes hb ha := Bool.eq_iff_iff.mpr <| by
    rw [keyRemedies_quotes, keyRemedies_quotes]
    exact and_congr (precedesKey_iff hb (.inl rfl)) (ha _ (.inl rfl))
  requotes _ _ := rfl

/-- Literals that stand for keys or values are told by openers and colons. -/
theorem late_quoteRemedies (target : QuoteTarget) : (quoteRemedies target).Late where
  drops _ _ := rfl
  quotes _ _ := rfl
  requotes hb ha := by
    have hbrace := hb CodePoint.isBlank (.inr rfl) (.scalar '{') (by simp [IsOpener])
    have hbracket := hb CodePoint.isBlank (.inr rfl) (.scalar '[') (by simp [IsOpener])
    have hcomma := hb CodePoint.isBlank (.inr rfl) (.scalar ',') (by simp [IsOpener])
    have hcolon := hb CodePoint.isBlank (.inr rfl) (.scalar ':') (by simp [IsOpener])
    have hahead := ha CodePoint.isBlank (.inr rfl)
    cases target
    · simp only [quoteRemedies, QuoteTarget.accepts]
      rw [decide_eq_decide.mpr hbrace, decide_eq_decide.mpr hcomma, decide_eq_decide.mpr hahead]
    · simp only [quoteRemedies, QuoteTarget.accepts]
      rw [decide_eq_decide.mpr hcolon, decide_eq_decide.mpr hbracket, decide_eq_decide.mpr hcomma]

/-- The remedies of the repair are sound. -/
theorem sound_remedies (s : Settings) : (remedies s).Sound :=
  (((sound_commaRemedies.onlyIf _).join (sound_keyRemedies.onlyIf _)).join
    ((sound_quoteRemedies .keys).onlyIf _)).join ((sound_quoteRemedies .values).onlyIf _)

/-- The text that a repair mends. -/
def readied (s : Settings) (t : Text) : Text :=
  if s.stripComments then stripComments t.trim else t.trim

/-- The lexemes that a repair leaves of a text. -/
def mended [Alphabet] (s : Settings) (t : Text) : List Lexeme :=
  mendFrom (remedies s) noNeighbour (lexemes (scan (readied s t)))

/-- What a repair leaves is lexed. -/
theorem lexed_mended [Alphabet] (s : Settings) (t : Text) : Lexed false (mended s t) :=
  Lexed.mendFrom (sound_remedies s) (lexed_lexemes _) (by simp)

/-- A list of steps goes on from the text that its first step has left. -/
theorem runSteps_of_step [Alphabet] {s : Settings} (step : Step) {t t' : Text}
    (h : (if step.applies s then step.process t else .ok t) = .ok t') (steps : List Step) :
    runSteps s (step :: steps) t = runSteps s steps t' := by
  rw [runSteps, runSteps, List.filter_cons]
  by_cases happlies : step.applies s
  · rw [if_pos happlies] at h
    rw [if_pos happlies, List.foldlM_cons, h]
    rfl
  · rw [if_neg happlies] at h
    rw [if_neg happlies, Except.ok.inj h]

/-- A switched step behind others mends with its remedies too. -/
theorem switched_eq [Alphabet] (on : Bool) {r before : Remedies} {ls : List Lexeme}
    {result : Text → Except Overlap Text} (hls : Lexed false ls) (hbefore : before.Sound)
    (hr : r.Late)
    (h : ∀ {ls}, Lexed false ls → result (spelled ls) = .ok (spelled (mendFrom r noNeighbour ls))) :
    (if on then (result (spelled (mendFrom before noNeighbour ls))).mapError Fault.overlap
      else .ok (spelled (mendFrom before noNeighbour ls))) =
      .ok (spelled (mendFrom (before.join (r.onlyIf on)) noNeighbour ls)) := by
  rw [← mendFrom_mendFrom hbefore (hr.onlyIf on) hls.shape (.inl (.refl noNeighbour))]
  cases on
  · rw [Remedies.onlyIf, if_neg Bool.false_ne_true, if_neg Bool.false_ne_true,
      mendFrom_noRemedies]
  · rw [if_pos rfl, h (hls.mendFrom hbefore (by simp))]
    rfl

/-- A repair mends the lexemes of the text, or refuses it for its bare values. -/
theorem repair_eq [Alphabet] (s : Settings) (t : Text) :
    repair s t =
      match bareFrom noNeighbour (lexemes (scan (readied s t))) with
      | [] => .ok (spelled (mended s t))
      | words => .error (.bareValues words) := by
  -- the remedies of the steps are joined one by one, and each join is sound before the next step
  have hls := lexed_lexemes (readied s t)
  have hfirst := sound_commaRemedies.onlyIf s.removeTrailingCommas
  have hsecond := hfirst.join (sound_keyRemedies.onlyIf s.quoteKeys)
  have hthird := hsecond.join ((sound_quoteRemedies .keys).onlyIf s.convertSingleQuotes)
  have hcomments : (if Step.comments.applies s then Step.comments.process t.trim
      else .ok t.trim) = .ok (spelled (lexemes (scan (readied s t)))) := by
    rw [spelled_lexemes, readied]
    cases h : s.stripComments <;> simp [Step.applies, Step.process, h]
  have hcommas : (if Step.commas.applies s then
      Step.commas.process (spelled (lexemes (scan (readied s t))))
      else .ok (spelled (lexemes (scan (readied s t))))) =
      .ok (spelled (mendFrom (commaRemedies.onlyIf s.removeTrailingCommas) noNeighbour
        (lexemes (scan (readied s t))))) := by
    cases h : s.removeTrailingCommas
    · simp [Step.applies, h, Remedies.onlyIf, mendFrom_noRemedies]
    · simp only [Step.applies, Step.process, h, removeTrailingCommas_spelled hls]
      rfl
  have hkeys := switched_eq s.quoteKeys hls hfirst late_keyRemedies quoteKeys_spelled
  have hsingleKeys := switched_eq s.convertSingleQuotes hls hsecond
    (late_quoteRemedies .keys) (convertSingleQuotes_spelled .keys)
  have hsingleValues := switched_eq s.convertSingleQuotes hls hthird
    (late_quoteRemedies .values) (convertSingleQuotes_spelled .values)
  have hbare : bareValues (spelled (mended s t)) =
      bareFrom noNeighbour (lexemes (scan (readied s t))) := by
    rw [bareValues_spelled (lexed_mended s t), mended,
      bareFrom_mendFrom (sound_remedies s) hls.shape (.inl fun _ _ _ _ => Iff.rfl)]
  rw [repair, runPipeline, Step.usual, runSteps_of_step .comments hcomments,
    runSteps_of_step .commas hcommas, runSteps_of_step .keys hkeys,
    runSteps_of_step (.singleQuotes .keys) hsingleKeys,
    runSteps_of_step (.singleQuotes .values) hsingleValues]
  have hlast : runSteps s [.bareValues] (spelled (mended s t)) =
      Step.bareValues.process (spelled (mended s t)) >>= fun t => .ok t := rfl
  refine hlast.trans ?_
  rw [Step.process, hbare]
  cases bareFrom noNeighbour (lexemes (scan (readied s t))) with
  | nil => rfl
  | cons => rfl

end SourcePress.Repair
