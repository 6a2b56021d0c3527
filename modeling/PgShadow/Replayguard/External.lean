/-
# External dependencies

What `SkipExternalDeps` blocks. The patterns are searched in the stripped copy of the
text. The copies that they match are those that show a call of one of the functions, a
`NOTIFY` or a table name in three parts (`ShowsExternal`, `external_found_iff`).

Measured against the tokens of the filter (`callsExternal`), a call is blocked if it
is outside the literals as the guard delimits them, with its name unquoted, nothing but
blanks before the parenthesis and no word byte in front (`external_blocked_iff`). A
comment before the parenthesis, a quoted name, an apostrophe in a comment and a digit
in front of the name all hide a call (`external_passes`).

Key definitions: `callsExternal`, `ShowsExternal`.
Key theorems: `external_found_iff`, `external_blocked_iff`.
-/
import PgShadow.Filter.CaseFold
import PgShadow.Replayguard.Outside
import PgShadow.Replayguard.Patterns
import PgShadow.Replayguard.ReadOnly

namespace PgShadow

/-- The functions whose calls reach beyond the database. -/
def externalNames : List String :=
  ["dblink", "dblink_exec", "pg_notify", "lo_import", "lo_export", "pg_advisory_lock", "pg_advisory_xact_lock",
    "pg_try_advisory_lock", "pg_try_advisory_xact_lock"]

/-- The word is one of their names, case ignored. -/
def isExternalName (w : Bytes) : Bool := externalNames.any fun name => w.map foldByte == bytes name

/-- One of the names is followed by a parenthesis. -/
def callsExternal : List Token → Bool
  | .word w :: t :: ts => (isExternalName w && t == .lparen) || callsExternal (t :: ts)
  | _ :: ts => callsExternal ts
  | [] => false

/-! ### What the patterns match -/

/-- A part of a name. -/
def IsPart (w : List ℕ) : Prop := w ≠ [] ∧ ∀ x ∈ w, isWordFold x = true

/-- The text shows an external dependency, in the sense of the patterns. -/
inductive ShowsExternal : List ℕ → Prop
  | call {name : String} {u n g : List ℕ} (rest : List ℕ) : name ∈ externalNames → isWord u.getLast? = false →
      Spelled name n → Blanks g → ShowsExternal (u ++ (n ++ (g ++ 40 :: rest)))
  | notify {u n g : List ℕ} {x : ℕ} (rest : List ℕ) : isWord u.getLast? = false → Spelled "notify" n → g ≠ [] →
      Blanks g → isWordFold x = true → ShowsExternal (u ++ (n ++ (g ++ x :: rest)))
  | remote {u n g a b c : List ℕ} (rest : List ℕ) : isWord u.getLast? = false → Spelled "from" n → g ≠ [] →
      Blanks g → IsPart a → IsPart b → IsPart c →
      ShowsExternal (u ++ (n ++ (g ++ (a ++ 46 :: (b ++ 46 :: (c ++ rest))))))

section Found

open Regex Pattern

/-- `\bNAME` and then a text without assertions, found in a text. -/
theorem found_named_iff {name : String} (hname : startsPlain name = true) {r : Regex ℕ} {L : List ℕ → Prop}
    (hr : Spells r L) (s : List ℕ) : (Regex.seq boundary (.seq (Pattern.text name) r)).found s = true ↔
      ∃ u n v rest, isWord u.getLast? = false ∧ Spelled name n ∧ L v ∧ s = u ++ (n ++ (v ++ rest)) := by
  rw [found_iff]
  constructor
  · rintro ⟨u, w, rest, rfl, hmatch⟩
    obtain ⟨hedge, hw⟩ := (seq_boundary_iff _ _ _ _).mp hmatch
    obtain ⟨n, v, rfl, hn, hv⟩ := ((spells_text name).seq hr _ _ _).mp hw
    rw [List.head?_reverse, List.append_assoc, edge_spelled_iff hname hn] at hedge
    exact ⟨u, n, v, rest, hedge, hn, hv, by rw [List.append_assoc]⟩
  · rintro ⟨u, n, v, rest, hedge, hn, hv, rfl⟩
    refine ⟨u, n ++ v, rest, by rw [List.append_assoc], (seq_boundary_iff _ _ _ _).mpr ⟨?_, ?_⟩⟩
    · rwa [List.head?_reverse, List.append_assoc, edge_spelled_iff hname hn]
    · exact ((spells_text name).seq hr _ _ _).mpr ⟨n, v, rfl, hn, hv⟩

theorem call_found_iff {name : String} (hname : startsPlain name = true) (s : List ℕ) :
    (call name).found s = true ↔ ∃ u n g rest, isWord u.getLast? = false ∧ Spelled name n ∧ Blanks g ∧
      s = u ++ (n ++ (g ++ 40 :: rest)) := by
  refine (found_named_iff hname (spells_blanks.seq (Spells.sym (· == '('.toNat))) s).trans ?_
  constructor
  · rintro ⟨u, n, v, rest, hedge, hn, ⟨g, _, rfl, hg, x, hx, rfl⟩, rfl⟩
    obtain rfl := eq_of_beq hx
    exact ⟨u, n, g, rest, hedge, hn, hg, by rw [List.append_assoc]; rfl⟩
  · rintro ⟨u, n, g, rest, hedge, hn, hg, rfl⟩
    exact ⟨u, n, g ++ [40], rest, hedge, hn, ⟨g, _, rfl, hg, 40, rfl, rfl⟩, by rw [List.append_assoc]; rfl⟩

theorem notify_found_iff (s : List ℕ) : notifyRegex.found s = true ↔
      ∃ u n g x rest, isWord u.getLast? = false ∧ Spelled "notify" n ∧ (g ≠ [] ∧ Blanks g) ∧ isWordFold x = true ∧
        s = u ++ (n ++ (g ++ x :: rest)) := by
  refine (found_named_iff (by decide) ((spells_plus isBlankRune).seq (Spells.sym isWordFold)) s).trans ?_
  constructor
  · rintro ⟨u, n, v, rest, hedge, hn, ⟨g, _, rfl, hg, x, hx, rfl⟩, rfl⟩
    exact ⟨u, n, g, x, rest, hedge, hn, hg, hx, by rw [List.append_assoc]; rfl⟩
  · rintro ⟨u, n, g, x, rest, hedge, hn, hg, hx, rfl⟩
    exact ⟨u, n, g ++ [x], rest, hedge, hn, ⟨g, _, rfl, hg, x, hx, rfl⟩, by rw [List.append_assoc]; rfl⟩

theorem remote_found_iff (s : List ℕ) : remoteRegex.found s = true ↔
      ∃ u n g a b c rest, isWord u.getLast? = false ∧ Spelled "from" n ∧ (g ≠ [] ∧ Blanks g) ∧ IsPart a ∧ IsPart b ∧
        IsPart c ∧ s = u ++ (n ++ (g ++ (a ++ 46 :: (b ++ 46 :: (c ++ rest))))) := by
  have hparts := (spells_plus isBlankRune).seq ((spells_plus isWordFold).seq (spells_rune '.'
    ((spells_plus isWordFold).seq (spells_rune '.' (spells_plus isWordFold)))))
  refine (found_named_iff (by decide) hparts s).trans ?_
  constructor
  · rintro ⟨u, n, v, rest, hedge, hn, ⟨g, _, rfl, hg, a, _, rfl, ha, _, rfl, b, _, rfl, hb, c, rfl, hc⟩, rfl⟩
    exact ⟨u, n, g, a, b, c, rest, hedge, hn, hg, ha, hb, hc, by simp⟩
  · rintro ⟨u, n, g, a, b, c, rest, hedge, hn, hg, ha, hb, hc, rfl⟩
    exact ⟨u, n, g ++ (a ++ 46 :: (b ++ 46 :: c)), rest, hedge, hn,
      ⟨g, _, rfl, hg, a, _, rfl, ha, _, rfl, b, _, rfl, hb, c, rfl, hc⟩, by simp⟩

/-- The patterns are one for each function, and the other two. -/
theorem mem_externalRegexes (r : Regex ℕ) : r ∈ externalRegexes ↔ (∃ name ∈ externalNames, r = call name) ∨
    r = notifyRegex ∨ r = remoteRegex := by
  have hsplit : externalRegexes = (externalNames.take 3).map call ++
      (notifyRegex :: remoteRegex :: (externalNames.drop 3).map call) := rfl
  have hnames : ∀ name, name ∈ externalNames ↔ name ∈ externalNames.take 3 ∨ name ∈ externalNames.drop 3 := by
    intro name
    rw [← List.mem_append, List.take_append_drop]
  rw [hsplit, List.mem_append, List.mem_cons, List.mem_cons, List.mem_map, List.mem_map]
  simp only [hnames]
  constructor
  · rintro (⟨name, hname, rfl⟩ | rfl | rfl | ⟨name, hname, rfl⟩)
    · exact .inl ⟨name, .inl hname, rfl⟩
    · exact .inr (.inl rfl)
    · exact .inr (.inr rfl)
    · exact .inl ⟨name, .inr hname, rfl⟩
  · rintro (⟨name, hname | hname, rfl⟩ | rfl | rfl)
    · exact .inl ⟨name, hname, rfl⟩
    · exact .inr (.inr (.inr ⟨name, hname, rfl⟩))
    · exact .inr (.inl rfl)
    · exact .inr (.inr (.inl rfl))

/-- **What the patterns match.** One of them is found in a text if and only if it shows
an external dependency. -/
theorem external_found_iff (s : List ℕ) : (externalRegexes.any fun r => r.found s) = true ↔ ShowsExternal s := by
  have hplain : ∀ name ∈ externalNames, startsPlain name = true := by decide
  rw [List.any_eq_true]
  constructor
  · rintro ⟨r, hr, hfound⟩
    rcases (mem_externalRegexes r).mp hr with ⟨name, hname, rfl⟩ | rfl | rfl
    · obtain ⟨u, n, g, rest, hedge, hn, hg, rfl⟩ := (call_found_iff (hplain name hname) s).mp hfound
      exact .call rest hname hedge hn hg
    · obtain ⟨u, n, g, x, rest, hedge, hn, ⟨hne, hg⟩, hx, rfl⟩ := (notify_found_iff s).mp hfound
      exact .notify rest hedge hn hne hg hx
    · obtain ⟨u, n, g, a, b, c, rest, hedge, hn, ⟨hne, hg⟩, ha, hb, hc, rfl⟩ := (remote_found_iff s).mp hfound
      exact .remote rest hedge hn hne hg ha hb hc
  · intro h
    cases h with
    | @call name u n g rest hname hedge hn hg =>
      refine ⟨call name, (mem_externalRegexes _).mpr (.inl ⟨name, hname, rfl⟩), ?_⟩
      exact (call_found_iff (hplain name hname) _).mpr ⟨u, n, g, rest, hedge, hn, hg, rfl⟩
    | @notify u n g x rest hedge hn hne hg hx =>
      refine ⟨_, (mem_externalRegexes _).mpr (.inr (.inl rfl)), ?_⟩
      exact (notify_found_iff _).mpr ⟨u, n, g, x, rest, hedge, hn, ⟨hne, hg⟩, hx, rfl⟩
    | @remote u n g a b c rest hedge hn hne hg ha hb hc =>
      refine ⟨_, (mem_externalRegexes _).mpr (.inr (.inr rfl)), ?_⟩
      exact (remote_found_iff _).mpr ⟨u, n, g, a, b, c, rest, hedge, hn, ⟨hne, hg⟩, ha, hb, hc, rfl⟩

end Found

/-! ### Calls in a text -/

/-- A call outside the literals: a name, not quoted and not directly after a word byte,
and nothing but blanks before its parenthesis. -/
def PlainCall (sql : Bytes) : Prop :=
  ∃ pre w gap post : Bytes, sql = pre ++ (w ++ (gap ++ 40 :: post)) ∧ (glyphs pre).isSome = true ∧
    (∀ c ∈ pre.getLast?, isTagByte c = false) ∧ isExternalName w = true ∧ ∀ c ∈ gap, isBlankRune c.toNat = true

/-- A word rune at the end of a text is its last byte. -/
theorem isWord_getLast_runes (s : Bytes) (h : ∀ c ∈ s.getLast?, isTagByte c = false) :
    isWord (runes s).getLast? = false := by
  fun_induction runes s with
  | case1 => rfl
  | case2 b t ih =>
    rcases hrest : runes (t.drop ((decodeRune (b :: t)).2 - 1)) with _ | ⟨x, rs⟩
    · show isWordRune (decodeRune (b :: t)).1 = false
      by_cases hb : b.toNat < 128
      · -- an ASCII rune with nothing after it is the text
        rw [decodeRune_ascii hb, Nat.sub_self, List.drop_zero] at hrest
        obtain rfl : t = [] := by
          rcases t with _ | ⟨c, t⟩
          · rfl
          · rw [runes] at hrest
            cases hrest
        rw [decodeRune_ascii hb]
        exact h b rfl
      · have hhigh := (decodeRune_bounds b t).2 (by omega)
        simp only [isWordRune, Bool.or_eq_false_iff, Bool.and_eq_false_iff, decide_eq_false_iff_not,
          beq_eq_false_iff_ne]
        omega
    · have hne : t.drop ((decodeRune (b :: t)).2 - 1) ≠ [] := by
        intro hnil
        rw [hnil, runes] at hrest
        cases hrest
      rw [List.getLast?_cons_cons, ← hrest]
      apply ih
      intro c hc
      apply h c
      rw [List.getLast?_drop, if_neg fun hle => hne (List.drop_eq_nil_of_le hle)] at hc
      rw [List.getLast?_cons, hc]
      rfl

theorem foldByte_letter {b : UInt8} {c : ℕ} (hc : (97 ≤ c ∧ c ≤ 122) ∨ c = 95) (h : (foldByte b).toNat = c) :
    sameLetter c b.toNat = true ∧ isTagByte b = true := by
  rw [foldByte_toNat] at h
  simp only [sameLetter, isTagByte, isWordRune, Bool.or_eq_true, Bool.and_eq_true, beq_iff_eq, decide_eq_true_eq]
  split_ifs at h ⊢ <;> omega

/-- A word that folds to a name spells it. -/
theorem spelled_of_foldByte {cs : List Char} {w : Bytes}
    (hcs : ∀ c ∈ cs, (97 ≤ c.toNat ∧ c.toNat ≤ 122) ∨ c.toNat = 95) (h : w.map foldByte = cs.map chr) :
    (∀ b ∈ w, isTagByte b = true) ∧ List.Forall₂ (fun c x => sameLetter c.toNat x = true) cs (w.map UInt8.toNat) := by
  refine spelled_of_map (fun c hc b hb => ?_) h
  have hchar := hcs c hc
  have hnat : (foldByte b).toNat = c.toNat := by
    rw [hb, chr, UInt8.toNat_ofNat']
    omega
  exact (foldByte_letter hchar hnat).symm

theorem externalName_spelled {w : Bytes} (h : isExternalName w = true) : ∃ name ∈ externalNames,
    Spelled name (w.map UInt8.toNat) ∧ w ≠ [] ∧ ∀ b ∈ w, isTagByte b = true := by
  have hletters : ∀ name ∈ externalNames, bytes name = name.toList.map chr ∧ name.toList ≠ [] ∧
      name.toList.all (fun c => (97 ≤ c.toNat && c.toNat ≤ 122) || c.toNat == 95) = true := by decide +kernel
  obtain ⟨name, hname, heq⟩ := List.any_eq_true.mp h
  obtain ⟨hbytes, hne, hcs⟩ := hletters name hname
  rw [beq_iff_eq, hbytes] at heq
  have hchars : ∀ c ∈ name.toList, (97 ≤ c.toNat ∧ c.toNat ≤ 122) ∨ c.toNat = 95 := by
    intro c hc
    simpa using List.all_eq_true.mp hcs c hc
  obtain ⟨hw, hspelled⟩ := spelled_of_foldByte hchars heq
  refine ⟨name, hname, hspelled, ?_, hw⟩
  rintro rfl
  exact hne (List.map_eq_nil_iff.mp heq.symm)

theorem plain_of_tagByte : ∀ b : UInt8, isTagByte b = true → IsPlain b ∧ b.toNat < 128 :=
  forall_byte (by decide +kernel)

theorem plain_of_blank : ∀ b : UInt8, isBlankRune b.toNat = true → IsPlain b ∧ b.toNat < 128 ∧ isTagByte b = false :=
  forall_byte (by decide +kernel)

/-- **A plain call shows** in the stripped copy. -/
theorem PlainCall.shows {sql : Bytes} (h : PlainCall sql) : ShowsExternal (runes (stripStringLiterals sql)) := by
  obtain ⟨pre, w, gap, post, rfl, hpre, hlast, hw, hgap⟩ := h
  obtain ⟨t, ht⟩ := Option.isSome_iff_exists.mp hpre
  obtain ⟨hscanned, rfl⟩ := scanned_iff.mp ht
  obtain ⟨name, hname, hspelled, hne, hbytes⟩ := externalName_spelled hw
  have hascii := plain_of_tagByte
  have hblank := plain_of_blank
  -- the name ends no tag, for a blank or the parenthesis comes after it
  have htag : ((w ++ (gap ++ 40 :: post)).dropWhile isTagByte).head? ≠ some 36 := by
    rw [List.dropWhile_append_of_pos hbytes]
    rcases gap with _ | ⟨c, gap⟩
    · rw [List.nil_append, List.dropWhile_cons_of_neg (by decide), List.head?_cons]
      exact fun he => absurd (Option.some.inj he) (by decide)
    · obtain ⟨hplain, -, hc⟩ := hblank c (hgap c List.mem_cons_self)
      rw [List.cons_append, List.dropWhile_cons_of_neg (by rw [hc]; exact Bool.false_ne_true), List.head?_cons]
      exact fun he => hplain.2 (Option.some.inj he)
  have hquote : (w ++ (gap ++ 40 :: post)).head? ≠ some 39 := by
    obtain ⟨b, w, rfl⟩ := List.exists_cons_of_ne_nil hne
    exact fun he => (hascii b (hbytes b List.mem_cons_self)).1.1 (Option.some.inj he)
  have hstrip : stripFrom false (w ++ (gap ++ 40 :: post)) = w ++ (gap ++ 40 :: stripFrom false post) := by
    rw [stripFrom_plain _ fun b hb => (hascii b (hbytes b hb)).1,
      stripFrom_plain _ fun b hb => (hblank b (hgap b hb)).1,
      stripFrom_outside (by decide) (parseDollarTag_ne (by decide) _)]
  have hrunes : runes (stripFrom false (textOf t) ++ (w ++ (gap ++ 40 :: stripFrom false post))) =
      runes (stripFrom false (textOf t)) ++ (w.map UInt8.toNat ++ (gap.map UInt8.toNat ++
        40 :: runes (stripFrom false post))) := by
    have hw' := runes_ascii_append (gap ++ 40 :: stripFrom false post) fun b hb => (hascii b (hbytes b hb)).2
    have hgap' := runes_ascii_append (40 :: stripFrom false post) fun b hb => (hblank b (hgap b hb)).2.1
    obtain ⟨b, w', hcons⟩ := List.exists_cons_of_ne_nil hne
    rw [hcons, List.cons_append, runes_append (.inl (hascii b (hbytes b (by simp [hcons]))).2), ← List.cons_append,
      ← hcons, hw', hgap', runes_ascii (by decide)]
    rfl
  rw [stripStringLiterals, hscanned.strip_append hquote htag, hstrip, hrunes]
  refine .call _ hname (isWord_getLast_runes _ ?_) hspelled ?_
  · rwa [hscanned.getLast_strip]
  · intro x hx
    obtain ⟨c, hc, rfl⟩ := List.mem_map.mp hx
    exact hgap c hc

/-! ### The filter -/

variable {F : Type} {U : CaseTable} {R : Regexes} {cfg : GuardRules F} {s : Guard F}

namespace Guard

theorem Of.externalBlocks_iff (hs : s.Of U R cfg) (hskip : cfg.skipExternalDeps = true) (sql : Bytes) :
    s.externalBlocks sql = true ↔ ShowsExternal (runes sql) := by
  obtain ⟨g, n, hg, rfl⟩ := hs
  rw [newGuard] at hg
  split at hg
  · cases hg
    rw [← external_found_iff, Guard.externalBlocks, hskip, Bool.true_and, List.any_map]
    rfl
  · cases hg

theorem Of.external_iff [Float64 F] (hs : s.Of U R cfg) (hskip : cfg.skipExternalDeps = true) (T : TimeTexts)
    (ev : SQLEvent) : (s.apply U T ev).1 = .block ↔
      ShowsExternal (runes (stripStringLiterals (s.mask ev.sql).1)) ∨ s.BlocksBesides U .external ev := by
  rw [apply_block_iff _ _ .external, ← strippedOf_eq, ← hs.externalBlocks_iff hskip, blocks]

end Guard

/-- **External dependencies.** With `SkipExternalDeps`, an event is blocked if and only if
the stripped copy of its text, as the masking leaves it, shows an external dependency,
or another rule blocks it. An unmasked text with a plain call is blocked. -/
theorem external_blocked_iff [Float64 F] (hs : s.Of U R cfg) (hskip : cfg.skipExternalDeps = true) (T : TimeTexts)
    (ev : SQLEvent) :
    ((s.apply U T ev).1 = .block ↔
      ShowsExternal (runes (stripStringLiterals (s.mask ev.sql).1)) ∨ s.BlocksBesides U .external ev) ∧
      ((s.mask ev.sql).1 = ev.sql → PlainCall ev.sql → (s.apply U T ev).1 = .block) := by
  refine ⟨hs.external_iff hskip T ev, fun hmask hcall => (hs.external_iff hskip T ev).mpr (.inl ?_)⟩
  rw [hmask]
  exact hcall.shows

/-- A guard with the rule for external dependencies and no other. -/
def externalRules : GuardRules ℚ := { maxReplayLagSeconds := 0, replayPercentage := 0, skipExternalDeps := true }

def externalEvent (sql : String) : SQLEvent :=
  { conn := ⟨.zero, 50000, .zero, 5432⟩, sql := bytes sql, timestamp := 0 }

/-- The decision of that guard. -/
def externalDecision (sql : String) : Option Decision :=
  (newGuard ⟨id, id⟩ noRegexes externalRules).map fun g =>
    (g.apply ⟨id, id⟩ ⟨fun _ => [], fun _ => [], fun _ => []⟩ (externalEvent sql)).1

/-- A call after a literal, in capitals. -/
theorem call_after_literal : externalDecision "SELECT 'a', DBLINK ('x')" = some .block := by
  have hnew : newGuard ⟨id, id⟩ noRegexes externalRules = some _ := rfl
  have hcall : PlainCall (externalEvent "SELECT 'a', DBLINK ('x')").sql := by
    refine ⟨bytes "SELECT 'a', ", bytes "DBLINK", bytes " ", bytes "'x')", ?_⟩
    decide +kernel
  exact congrArg some ((external_blocked_iff (Guard.new_of hnew) rfl ⟨fun _ => [], fun _ => [], fun _ => []⟩
    (externalEvent "SELECT 'a', DBLINK ('x')")).2 rfl hcall)

/-- **Counterexample**: a comment before the parenthesis, a quoted name, an apostrophe in
a comment and a digit in front of the name let a call through. -/
theorem external_passes :
    ["SELECT dblink/**/('x')", "SELECT \"dblink\"('x')", "SELECT /* ' */ dblink('x')",
      "SELECT 1dblink('x')"].Forall fun sql =>
      callsExternal (lex (bytes sql)) = true ∧ externalDecision sql = some .allow := by
  decide +kernel

end PgShadow
