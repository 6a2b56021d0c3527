/-
# Time rewriting

With `RewriteTimeFunctions` and no other rule, on a text whose literals are all closed.
What time rewriting is to do is `RewritesTimes`: the literals stay, no time pattern
matches outside them afterwards, `Apply` says whether the text has changed, and a
second time nothing happens.

It does so if and only if no dollar tag is one of the names used without parentheses,
in any case, and no use is exposed (`time_rewriting_iff`). A tag is matched in the
stripped copy, which keeps it. An exposed use is a call of `statement_timestamp` whose
name starts with a long s, directly after another one or after a call of
`transaction_timestamp`: it has no boundary in front until that call is replaced.

Key definitions: `timeTexts`, `RewritesTimes`, `GuardRules.OnlyTimes`.
Key theorems: `rewriteTimes_all`, `time_rewriting_iff`.
-/
import PgShadow.Go.TimeFormat
import PgShadow.Replayguard.Rewriting

namespace PgShadow

/-! ### The inserted texts -/

/-- The contents of the literal for a capture time, in a zone with the offset. -/
def timeBody (t offset : ℤ) : TimeFn → Bytes
  | .currentDate => formatDate t offset
  | .currentTime => formatClock t offset ++ formatZone offset
  | _ => formatDate t offset ++ chr ' ' :: (formatClock t offset ++ formatZone offset)

/-- The three layouts of `Apply`, for times with the offsets of their zones. -/
def timeTexts (zone : ℤ → ℤ) : TimeTexts where
  timestamptz t := chr '\'' :: (formatDate t (zone t) ++ chr ' ' :: (formatClock t (zone t) ++ formatZone (zone t) ++
    bytes "'::timestamptz"))
  date t := chr '\'' :: (formatDate t (zone t) ++ bytes "'::date")
  timetz t := chr '\'' :: (formatClock t (zone t) ++ formatZone (zone t) ++ bytes "'::timetz")

theorem apostrophe_notMem_timeBody (t offset : ℤ) (f : TimeFn) : 39 ∉ timeBody t offset f := by
  have hdate := apostrophe_notMem_formatDate t offset
  have htime : 39 ∉ formatClock t offset ++ formatZone offset := by
    rw [List.mem_append]
    exact not_or.mpr ⟨apostrophe_notMem_formatClock t offset, apostrophe_notMem_formatZone offset⟩
  have hstamp : 39 ∉ formatDate t offset ++ chr ' ' :: (formatClock t offset ++ formatZone offset) := by
    rw [List.mem_append, List.mem_cons]
    exact not_or.mpr ⟨hdate, not_or.mpr ⟨by decide, htime⟩⟩
  cases f with
  | currentDate => exact hdate
  | currentTime => exact htime
  | _ => exact hstamp

/-- The text that `Apply` inserts for a pattern. -/
theorem textOf_block (zone : ℤ → ℤ) (t : ℤ) (f : TimeFn) : textOf (block (timeBody t (zone t)) f) =
    if f.index = 2 then (timeTexts zone).date t else if f.index = 6 then (timeTexts zone).timetz t
    else (timeTexts zone).timestamptz t := by
  have hblock : textOf (block (timeBody t (zone t)) f) =
      39 :: (timeBody t (zone t) f ++ (39 :: (textOf (asciiGlyphs "::") ++ textOf (asciiGlyphs f.cast)))) := by
    rw [block, textOf_quote, textOf_append, List.append_assoc, List.singleton_append]
  have hstamp : ∀ v : Bytes, formatDate t (zone t) ++ chr ' ' :: (formatClock t (zone t) ++ formatZone (zone t)) ++ v =
      formatDate t (zone t) ++ chr ' ' :: (formatClock t (zone t) ++ formatZone (zone t) ++ v) :=
    fun v => List.append_assoc _ _ _
  rw [hblock]
  cases f with
  | currentDate => rfl
  | currentTime => rfl
  | _ => exact congrArg _ (hstamp _)

/-! ### One pattern -/

/-- A compiled time pattern. -/
abbrev compiledFn (f : TimeFn) : Regexp := ⟨fun s => f.regex.found (runes s), replaceAllString f.regex⟩

theorem textOf_passFrom (f : TimeFn) (v t : List Glyph) :
    textOf (passFrom f v [] t) = replaceGlyphs f.regex (textOf v) t := by
  have hkeep : (fun g : Glyph => [g].flatMap Glyph.text) = Glyph.text := by
    funext g
    exact List.append_nil _
  rw [textOf, passFrom, Regex.flatMap_replaceFrom, hkeep]
  rfl

theorem passFrom_of_not_found {f : TimeFn} (v : List Glyph) {t : List Glyph} (h : f.regex.found (valuesOf t) = false) :
    passFrom f v [] t = t := by
  rw [passFrom, Regex.replaceFrom_of_not_found f.regex _ _ _ true h]
  exact List.flatMap_singleton' t

/-- No tag of the text is one of the names. -/
def NoTimeTag (t : List Glyph) : Prop := ∀ tag ∈ tagsOf t, ¬TimeFn.IsTimeTag tag

/-- The name of a tag is made of word runes. -/
theorem Scanned.tag_bytes {t : List Glyph} (h : Scanned t) :
    ∀ tag ∈ tagsOf t, ∀ c ∈ tagName tag, isTagByte c = true := by
  induction h with
  | nil => simp [tagsOf]
  | rune _ _ _ _ ih => exact ih
  | quote _ _ _ ih =>
    rw [tagsOf_quote]
    exact ih
  | dollar hdollar _ ih =>
    obtain ⟨name, rfl, hname⟩ := hdollar.tag_eq
    have htag : tagName (36 :: (name ++ [36])) = name := List.dropLast_concat
    rw [tagsOf_dollar]
    intro tag hmem
    rcases List.mem_cons.mp hmem with rfl | hmem
    · rwa [htag]
    rcases List.mem_cons.mp hmem with rfl | hmem
    · rwa [htag]
    · exact ih tag hmem

theorem Scanned.tag_found_iff {t : List Glyph} (h : Scanned t) {tag : Bytes} (hmem : tag ∈ tagsOf t) :
    (∀ f : TimeFn, f.regex.found (runes (tagName tag)) = false) ↔ ¬TimeFn.IsTimeTag tag := by
  have hbytes := h.tag_bytes tag hmem
  have hascii : ∀ c ∈ tagName tag, c.toNat < 128 := by
    intro c hc
    have hword := hbytes c hc
    simp only [isTagByte, isWordRune, Bool.or_eq_true, Bool.and_eq_true, decide_eq_true_eq, beq_iff_eq] at hword
    omega
  have hrunes : ∀ x ∈ runes (tagName tag), isWordRune x = true := by
    have heq := runes_ascii_append [] hascii
    rw [List.append_nil, runes, List.append_nil] at heq
    rw [heq]
    intro x hx
    obtain ⟨c, hc, rfl⟩ := List.mem_map.mp hx
    exact hbytes c hc
  rw [TimeFn.IsTimeTag, not_exists]
  refine forall_congr' fun f => ?_
  rw [← Bool.not_eq_true, f.found_word_iff hrunes]

/-- A pattern in the stripped copy, without tags that match. -/
theorem Scanned.found_stripped {t : List Glyph} (h : Scanned t) (htags : NoTimeTag t) (f : TimeFn) :
    f.regex.found (runes (strippedOf (textOf t))) = f.regex.found (valuesOf t) := by
  have hnone : ((tagsOf t).any fun tag => f.regex.found (runes (tagName tag))) = false := by
    rw [List.any_eq_false]
    intro tag hmem
    rw [Bool.not_eq_true]
    exact (h.tag_found_iff hmem).mpr (htags tag hmem) f
  rw [strippedOf_eq, h.found_strip f.walled, hnone, Bool.or_false]

/-- **One pattern** of `Apply`, whichever way it replaces. -/
theorem Scanned.pass {t : List Glyph} (h : Scanned t) (htags : NoTimeTag t) (f : TimeFn) (v : List Glyph)
    (rewritten : Bool) :
    (if (compiledFn f).matchString (strippedOf (textOf t)) then
      (if strippedOf (textOf t) = textOf t then (compiledFn f).replaceAllString (textOf t) (textOf v)
        else replaceOutsideStrings (textOf t) (compiledFn f) (textOf v), true)
      else (textOf t, rewritten)) =
      (textOf (passFrom f v [] t), rewritten || f.regex.found (valuesOf t)) := by
  have hmatch : (compiledFn f).matchString (strippedOf (textOf t)) = f.regex.found (valuesOf t) :=
    h.found_stripped htags f
  rw [hmatch]
  cases hfound : f.regex.found (valuesOf t) with
  | false => rw [if_neg Bool.false_ne_true, passFrom_of_not_found v hfound, Bool.or_false]
  | true =>
    rw [if_pos rfl, textOf_passFrom, Bool.or_true]
    split
    · rename_i hstrip
      rw [strippedOf_eq] at hstrip
      rw [← h.replaceAll f.walled (textOf v) (fun tag hmem => (h.tag_found_iff hmem).mpr (htags tag hmem) f) hstrip]
    · rw [h.replaceOutside f.walled rfl]

/-! ### All patterns -/

section Run

variable (T : TimeTexts) (ts : ℤ)

theorem rewriteTimes_rewritten : ∀ (i : ℕ) (pats : List Regexp) (sql : Bytes),
    (Guard.rewriteTimes T ts i pats (sql, true)).2 = true
  | _, [], _ => rfl
  | i, pat :: pats, sql => by
    rw [Guard.rewriteTimes]
    split
    · exact rewriteTimes_rewritten (i + 1) pats _
    · exact rewriteTimes_rewritten (i + 1) pats sql

/-- Nothing is rewritten exactly if no pattern matches the stripped copy. -/
theorem rewriteTimes_quiet_iff : ∀ (i : ℕ) (pats : List Regexp) (sql : Bytes),
    (Guard.rewriteTimes T ts i pats (sql, false)).2 = false ↔
      ∀ pat ∈ pats, pat.matchString (strippedOf sql) = false
  | _, [], _ => by simp [Guard.rewriteTimes]
  | i, pat :: pats, sql => by
    rw [Guard.rewriteTimes, List.forall_mem_cons]
    cases hmatch : pat.matchString (strippedOf sql) with
    | true => simp [rewriteTimes_rewritten]
    | false => simp [rewriteTimes_quiet_iff (i + 1) pats sql]

theorem rewriteTimes_quiet : ∀ (i : ℕ) {pats : List Regexp} {sql : Bytes},
    (∀ pat ∈ pats, pat.matchString (strippedOf sql) = false) →
      Guard.rewriteTimes T ts i pats (sql, false) = (sql, false)
  | _, [], _, _ => rfl
  | i, pat :: pats, sql, h => by
    obtain ⟨hpat, hpats⟩ := List.forall_mem_cons.mp h
    rw [Guard.rewriteTimes, hpat]
    exact rewriteTimes_quiet (i + 1) hpats

end Run

section Shown

variable {t : List Glyph} (ht : Scanned t) (htags : NoTimeTag t) (zone : ℤ → ℤ) (ts : ℤ)

/-- The text of `t` before the pattern with index `n`. -/
def stageText (n : ℕ) (t : List Glyph) : List Glyph := shown (timeBody ts (zone ts)) n (.plain false) (parse t)

include ht in
theorem stageText_rewritten (n : ℕ) : Rewritten Inserts t (stageText zone ts n t) := by
  obtain ⟨hparsed, horig⟩ := parse_spec t
  have hmem : ∀ g ∈ original (parse t), g ∈ t := by
    rw [horig]
    exact fun g hg => hg
  have hrewritten := rewritten_shown (apostrophe_notMem_timeBody ts (zone ts)) ht n hparsed hmem (.plain false)
  rwa [horig] at hrewritten

include ht in
theorem stageText_scanned (n : ℕ) : Scanned (stageText zone ts n t) := (stageText_rewritten ht zone ts n).scanned ht

include ht htags in
theorem stageText_tags (n : ℕ) : NoTimeTag (stageText zone ts n t) := by
  rw [NoTimeTag, (stageText_rewritten ht zone ts n).tags_eq]
  exact htags

include ht htags in
/-- **All patterns**, one after the other, from the pattern with index `n` on. -/
theorem rewriteTimes_stage : ∀ (fs : List TimeFn) {n : ℕ} (rewritten : Bool),
    fs.map TimeFn.index = List.range' n fs.length →
    Guard.rewriteTimes (timeTexts zone) ts n (fs.map compiledFn) (textOf (stageText zone ts n t), rewritten) =
      (textOf (stageText zone ts (n + fs.length) t),
        rewritten || fs.any fun f => f.regex.found (valuesOf (stageText zone ts f.index t)))
  | [], n, rewritten, _ => by rw [List.map_nil, Guard.rewriteTimes, List.any_nil, Bool.or_false]; rfl
  | f :: fs, n, rewritten, hindex => by
    rw [List.map_cons, List.length_cons, List.range'_succ] at hindex
    obtain ⟨rfl, hrest⟩ := List.cons.inj hindex
    have hpass := (stageText_scanned ht zone ts f.index).pass (stageText_tags ht htags zone ts f.index) f
      (block (timeBody ts (zone ts)) f) rewritten
    have hnext : passFrom f (block (timeBody ts (zone ts)) f) [] (stageText zone ts f.index t) =
        stageText zone ts (f.index + 1) t := replace_shown _ f (parse_spec t).1 rfl
    rw [hnext, textOf_block] at hpass
    rw [List.map_cons, Guard.rewriteTimes]
    dsimp only
    rw [hpass, rewriteTimes_stage fs _ hrest, List.any_cons, List.length_cons, Bool.or_assoc, Nat.add_assoc f.index,
      Nat.add_comm 1]

include ht htags in
theorem rewriteTimes_all : Guard.rewriteTimes (timeTexts zone) ts 0 (TimeFn.all.map compiledFn) (textOf t, false) =
    (textOf (stageText zone ts 7 t),
      TimeFn.all.any fun f => f.regex.found (valuesOf (stageText zone ts f.index t))) := by
  have hzero : stageText zone ts 0 t = t := (shown_zero _ _ _).trans (parse_spec t).2
  have hall := rewriteTimes_stage ht htags zone ts TimeFn.all (n := 0) false rfl
  rw [hzero, Bool.false_or] at hall
  exact hall

include ht in
/-- A text that comes out as it was has no pattern to replace. -/
theorem not_found_of_unchanged (he : textOf (stageText zone ts 7 t) = textOf t) (f : TimeFn) :
    f.regex.found (valuesOf (stageText zone ts f.index t)) = false := by
  obtain ⟨hparsed, horig⟩ := parse_spec t
  have hseven : stageText zone ts 7 t = t := by
    have hread := glyphs_of_scanned (stageText_scanned ht zone ts 7)
    rw [he, glyphs_of_scanned ht] at hread
    exact (Option.some.inj hread).symm
  have hstage : ∀ n, stageText zone ts n t = t := by
    intro n
    have hshown := shown_of_eq (timeBody ts (zone ts)) hparsed (hseven.trans horig.symm) n
    exact hshown.trans horig
  have hpass : passFrom f (block (timeBody ts (zone ts)) f) [] (stageText zone ts f.index t) =
      stageText zone ts (f.index + 1) t := replace_shown _ f hparsed rfl
  obtain ⟨v, hv⟩ : ∃ v, block (timeBody ts (zone ts)) f = .raw 39 :: v := ⟨_, rfl⟩
  rw [hstage, hstage, hv] at hpass
  rw [hstage]
  have hwall : IsDelimiter (Glyph.raw 39).value := .inr rfl
  exact f.walled.not_found_of_replaceFrom_eq hwall v hpass

end Shown

/-! ### The guard -/

variable {F : Type} [Float64 F]

/-- No rule of the guard but time rewriting. -/
structure GuardRules.OnlyTimes (cfg : GuardRules F) : Prop extends cfg.NoOthers where
  rewriteTimeFunctions : cfg.rewriteTimeFunctions = true
  includeUsers : cfg.includeUsers = []

/-- Patterns that are replaced as `ReplaceAllString` does. -/
def timeRegexps (orbit : ℕ → ℕ → Bool) (compile : Bytes → Option Regexp) : Regexes := ⟨orbit, compile, replaceAllString⟩

section Guard

variable {U : CaseTable} {orbit : ℕ → ℕ → Bool} {compile : Bytes → Option Regexp} {cfg : GuardRules F} {s : Guard F}

/-- Such a guard rewrites times and does nothing else. -/
theorem GuardRules.OnlyTimes.apply_eq (h : cfg.OnlyTimes) (hs : s.Of U (timeRegexps orbit compile) cfg) (T : TimeTexts)
    (ev : SQLEvent) (hts : ev.timestamp ≠ zeroTime) :
    s.apply U T ev =
      let out := Guard.rewriteTimes T ev.timestamp 0 (TimeFn.all.map compiledFn) (ev.sql, false)
      (if out.2 then .rewrite else .allow, { ev with sql := out.1 }, s) := by
  obtain ⟨g, n, hg, rfl⟩ := hs
  obtain ⟨⟨hddl, hexternal, hreadOnly, hpercentage, hmasks, hinclude, hexclude⟩, htimes, husers⟩ := h
  rw [newGuard, hinclude, hexclude, hmasks, husers] at hg
  cases hg
  have hpatterns : timeRegexes.map (timeRegexps orbit compile).compiled = TimeFn.all.map compiledFn := rfl
  simp [Guard.apply, Guard.mask, Guard.samples, Guard.percentageBlocks, Guard.userBlocks, Guard.readOnlyBlocks,
    Guard.ddlBlocks, Guard.externalBlocks, Guard.tableBlocks, htimes, hddl, hexternal, hreadOnly, hpercentage, hts,
    hpatterns]

variable (U) (s) in
/-- What time rewriting is to do with an event whose text reads `t`. -/
structure RewritesTimes (T : TimeTexts) (ev : SQLEvent) (t : List Glyph) : Prop where
  /-- The literals are in the text as they were, only text outside them is changed. -/
  literals : ∃ t', glyphs (s.apply U T ev).2.1.sql = some t' ∧ Rewritten ChangesOutside t t'
  /-- No time pattern matches outside the literals. -/
  complete : ∀ t', glyphs (s.apply U T ev).2.1.sql = some t' →
    ∀ r ∈ timeRegexes, ∀ u ∈ outsides t', r.found (runes u) = false
  /-- It says whether the text has changed. -/
  decision : (s.apply U T ev).1 = if (s.apply U T ev).2.1.sql = ev.sql then .allow else .rewrite
  /-- A second time nothing happens. -/
  again : ((s.apply U T ev).2.2.apply U T (s.apply U T ev).2.1).1 = .allow ∧
    ((s.apply U T ev).2.2.apply U T (s.apply U T ev).2.1).2.1.sql = (s.apply U T ev).2.1.sql

/-- No pattern matches between the literals exactly if none is found outside them. -/
theorem complete_iff {t : List Glyph} (ht : Scanned t) :
    (∀ r ∈ timeRegexes, ∀ u ∈ outsides t, r.found (runes u) = false) ↔
      ∀ f : TimeFn, f.regex.found (valuesOf t) = false := by
  rw [TimeFn.timeRegexes_eq, List.forall_mem_map]
  constructor
  · intro h f
    rw [← ht.found_outsides f.walled, List.any_eq_false]
    intro u hu
    rw [h f f.mem_all u hu]
    exact Bool.false_ne_true
  · intro h f _ u hu
    have hf := h f
    rw [← ht.found_outsides f.walled, List.any_eq_false] at hf
    exact Bool.eq_false_of_not_eq_true (hf u hu)

section Apply

variable (h : cfg.OnlyTimes) (hs : s.Of U (timeRegexps orbit compile) cfg) (zone : ℤ → ℤ) {ev : SQLEvent}
  (hts : ev.timestamp ≠ zeroTime) {t : List Glyph} (ht : glyphs ev.sql = some t)

include h hs hts in
/-- A second application finds nothing to rewrite. -/
theorem again_iff (T : TimeTexts) {sql : Bytes} :
    (s.apply U T { ev with sql }).1 = .allow ↔ ∀ f : TimeFn, f.regex.found (runes (strippedOf sql)) = false := by
  have hquiet := rewriteTimes_quiet_iff T ev.timestamp 0 (TimeFn.all.map compiledFn) sql
  rw [List.forall_mem_map] at hquiet
  rw [h.apply_eq hs T { ev with sql } hts]
  dsimp only
  constructor
  · intro hallow f
    refine hquiet.mp ?_ f f.mem_all
    by_contra hne
    rw [if_pos (Bool.eq_true_of_not_eq_false hne)] at hallow
    cases hallow
  · intro hnone
    rw [hquiet.mpr fun f _ => hnone f]
    rfl

include h hs hts ht in
/-- **What comes out**, without a tag that matches. -/
theorem apply_times (htags : NoTimeTag t) : s.apply U (timeTexts zone) ev =
    (if textOf (stageText zone ev.timestamp 7 t) = ev.sql then .allow else .rewrite,
      { ev with sql := textOf (stageText zone ev.timestamp 7 t) }, s) := by
  obtain ⟨hscanned, htext⟩ := scanned_of_glyphs ht
  have hall := rewriteTimes_all hscanned htags zone ev.timestamp
  rw [htext] at hall
  rw [h.apply_eq hs _ ev hts, hall]
  dsimp only
  by_cases he : textOf (stageText zone ev.timestamp 7 t) = ev.sql
  · have hnone :
        (TimeFn.all.any fun f => f.regex.found (valuesOf (stageText zone ev.timestamp f.index t))) = false := by
      rw [List.any_eq_false]
      intro f _
      rw [not_found_of_unchanged hscanned zone ev.timestamp (he.trans htext.symm) f]
      exact Bool.false_ne_true
    rw [hnone, if_pos he]
    rfl
  · rw [if_neg he, if_pos]
    by_contra hnone
    have hquiet := (rewriteTimes_quiet_iff (timeTexts zone) ev.timestamp 0 (TimeFn.all.map compiledFn) ev.sql).mp
      (by rw [hall]; exact Bool.eq_false_of_not_eq_true hnone)
    rw [rewriteTimes_quiet (timeTexts zone) ev.timestamp 0 hquiet] at hall
    exact he (Prod.mk.inj hall).1.symm

include h hs hts in
/-- A second application allows the event exactly if no pattern matches what the first one
leaves, and then leaves it as it is. -/
theorem apply_again (T : TimeTexts) :
    (((s.apply U T ev).2.2.apply U T (s.apply U T ev).2.1).1 = .allow ↔
      ∀ f : TimeFn, f.regex.found (runes (strippedOf (s.apply U T ev).2.1.sql)) = false) ∧
    (((s.apply U T ev).2.2.apply U T (s.apply U T ev).2.1).1 = .allow →
      ((s.apply U T ev).2.2.apply U T (s.apply U T ev).2.1).2.1.sql = (s.apply U T ev).2.1.sql) := by
  have hfirst := h.apply_eq hs T ev hts
  dsimp only at hfirst
  rw [hfirst]
  refine ⟨again_iff h hs hts T, fun hallow => ?_⟩
  have hnone := (again_iff h hs hts T).mp hallow
  generalize (Guard.rewriteTimes T ev.timestamp 0 (TimeFn.all.map compiledFn) (ev.sql, false)).1 = sql at hnone ⊢
  have hquiet : ∀ pat ∈ TimeFn.all.map compiledFn, pat.matchString (strippedOf sql) = false :=
    List.forall_mem_map.mpr fun f _ => hnone f
  have hsecond := h.apply_eq hs T { ev with sql } hts
  dsimp only at hsecond
  rw [rewriteTimes_quiet T ev.timestamp 0 hquiet] at hsecond
  rw [hsecond]

include h hs hts ht in
/-- Where time rewriting does what it is to do, no tag matches. -/
theorem RewritesTimes.noTimeTag {T : TimeTexts} (hr : RewritesTimes U s T ev t) : NoTimeTag t := by
  obtain ⟨hscanned, -⟩ := scanned_of_glyphs ht
  obtain ⟨t', ht', hkept⟩ := hr.literals
  obtain ⟨hscanned', htext'⟩ := scanned_of_glyphs ht'
  have hnone := (apply_again h hs hts T).1.mp hr.again.1
  intro tag hmem
  have hmem' := hkept.tags_sublist.subset hmem
  refine (hscanned'.tag_found_iff hmem').mp fun f => ?_
  have hf := hnone f
  rw [← htext', strippedOf_eq, hscanned'.found_strip f.walled, Bool.or_eq_false_iff, List.any_eq_false] at hf
  exact Bool.eq_false_of_not_eq_true (hf.2 tag hmem')

end Apply

/-- No use is exposed in the text. -/
def NoneExposed (t : List Glyph) : Prop := exposes (.plain false) (parse t) = false

instance (t : List Glyph) : Decidable (NoneExposed t) := inferInstanceAs (Decidable (_ = _))

/-- At the end, no pattern matches exactly if no use is exposed. -/
theorem found_end_iff (zone : ℤ → ℤ) (ts : ℤ) (t : List Glyph) :
    (∀ f : TimeFn, f.regex.found (valuesOf (stageText zone ts 7 t)) = false) ↔ NoneExposed t :=
  found_shown (timeBody ts (zone ts)) (parse_spec t).1 (b := []) rfl

/-- **Time rewriting.** With `RewriteTimeFunctions` and no other rule, on a text with
closed literals and at a time other than the zero time, the guard does what it is to do
if and only if no tag is a name used without parentheses and no use is exposed. -/
theorem time_rewriting_iff (h : cfg.OnlyTimes) (hs : s.Of U (timeRegexps orbit compile) cfg) (zone : ℤ → ℤ)
    (ev : SQLEvent) (hts : ev.timestamp ≠ zeroTime) (t : List Glyph) (ht : glyphs ev.sql = some t) :
    RewritesTimes U s (timeTexts zone) ev t ↔ NoTimeTag t ∧ NoneExposed t := by
  obtain ⟨hscanned, -⟩ := scanned_of_glyphs ht
  have hend := stageText_scanned hscanned zone ev.timestamp 7
  have hread := glyphs_of_scanned hend
  constructor
  · intro hr
    have htags := hr.noTimeTag h hs hts ht
    have happly := apply_times h hs zone hts ht htags
    refine ⟨htags, (found_end_iff zone ev.timestamp t).mp ((complete_iff hend).mp ?_)⟩
    refine hr.complete _ ?_
    rw [happly]
    exact hread
  · rintro ⟨htags, hexposed⟩
    have happly := apply_times h hs zone hts ht htags
    have hnone := (found_end_iff zone ev.timestamp t).mpr hexposed
    have hagain : ((s.apply U (timeTexts zone) ev).2.2.apply U (timeTexts zone)
        (s.apply U (timeTexts zone) ev).2.1).1 = .allow := by
      refine (apply_again h hs hts (timeTexts zone)).1.mpr fun f => ?_
      rw [happly]
      exact (hend.found_stripped (stageText_tags hscanned htags zone ev.timestamp 7) f).trans (hnone f)
    refine ⟨⟨stageText zone ev.timestamp 7 t, ?_, ?_⟩, ?_, ?_, hagain, (apply_again h hs hts (timeTexts zone)).2 hagain⟩
    · rw [happly]
      exact hread
    · exact (stageText_rewritten hscanned zone ev.timestamp 7).mono fun _ _ => Inserts.changesOutside
    · intro t' ht'
      rw [happly] at ht'
      obtain rfl := Option.some.inj (hread.symm.trans ht')
      exact (complete_iff hend).mpr hnone
    · rw [happly]

end Guard

/-- A guard that rewrites times and does nothing else. -/
def timesRules : GuardRules ℚ := { maxReplayLagSeconds := 0, replayPercentage := 0, rewriteTimeFunctions := true }

def timesEvent (sql : Bytes) : SQLEvent := { conn := ⟨.zero, 50000, .zero, 5432⟩, sql, timestamp := 0 }

/-- A call of `now` behind a literal that spells one. -/
theorem now_rewritten : ∃ g, newGuard ⟨id, id⟩ (timeRegexps (fun _ _ => false) fun _ => none) timesRules = some g ∧
    RewritesTimes ⟨id, id⟩ g (timeTexts fun _ => 0) (timesEvent (bytes "SELECT 'now()', now()"))
      (asciiGlyphs "SELECT " ++ (raws (bytes "'now()'") ++ asciiGlyphs ", now()")) := by
  have honly : timesRules.OnlyTimes := ⟨⟨rfl, rfl, rfl, by decide +kernel, rfl, rfl, rfl⟩, rfl, rfl⟩
  have hread : glyphs (bytes "SELECT 'now()', now()") =
      some (asciiGlyphs "SELECT " ++ (raws (bytes "'now()'") ++ asciiGlyphs ", now()")) := by decide +kernel
  have htags : NoTimeTag (asciiGlyphs "SELECT " ++ (raws (bytes "'now()'") ++ asciiGlyphs ", now()")) := by
    intro tag hmem
    rw [show tagsOf (asciiGlyphs "SELECT " ++ (raws (bytes "'now()'") ++ asciiGlyphs ", now()")) = [] by
      decide +kernel] at hmem
    cases hmem
  refine ⟨_, rfl, (time_rewriting_iff honly (Guard.new_of rfl) (fun _ => 0)
    (timesEvent (bytes "SELECT 'now()', now()")) (by decide) _ hread).mpr ⟨htags, by decide +kernel⟩⟩

/-- What the guard makes of a text, and of what it makes of it. -/
def appliedTwice (sql : Bytes) : Option ((Decision × Bytes) × Decision × Bytes) :=
  (newGuard ⟨id, id⟩ (timeRegexps (fun _ _ => false) fun _ => none) timesRules).map fun g =>
    let out := g.apply ⟨id, id⟩ (timeTexts fun _ => 0) (timesEvent sql)
    let again := out.2.2.apply ⟨id, id⟩ (timeTexts fun _ => 0) out.2.1
    ((out.1, out.2.1.sql), again.1, again.2.1.sql)

/-- Two calls of `statement_timestamp`, the second one with a long s in front. -/
def longS : Bytes := bytes "SELECT statement_timestamp()" ++ [0xC5, 0xBF] ++ bytes "tatement_timestamp()"

/-- **Counterexample**: the second call is left, and a second application rewrites it. The
text has no literal and no tag. -/
theorem long_s_left : (glyphs longS).map tagsOf = some [] ∧ appliedTwice longS = some
    ((.rewrite, bytes "SELECT '1970-01-01 00:00:00.000000+00:00'::timestamptz" ++ [0xC5, 0xBF] ++
      bytes "tatement_timestamp()"),
    .rewrite, bytes ("SELECT '1970-01-01 00:00:00.000000+00:00'::timestamptz" ++
      "'1970-01-01 00:00:00.000000+00:00'::timestamptz")) := by
  decide +kernel

end PgShadow
