/-
# Keyword/value connection strings

The grammar of connection strings made of `key=value` settings: a bare value ends at
white space, a quoted one at an unescaped quote, and a backslash stands for the
character after it (`parse`). Against it, strings written field by field with values
that are quoted in a style of one's own (`Style`): quotes and backslashes are doubled,
and values without a character that triggers it are left bare (`render`).

Doubling is right for backslashes only. `roundTrips_iff` says when a string that is
written so is read as it was meant: no value has a quote, and none that is left bare
has white space. The quotes of such a string are the delimiters and the doubled ones
(`quote_cases`), and its backslashes come in pairs (`Paired`); so no setting that is
read anywhere in it has a value that should have been quoted (`bare_value_lost`).

Key definitions: `parse`, `valueOf`, `Style`, `render`, `Safe`.
Key theorems: `parse_iff`, `quote_cases`, `bare_value_lost`, `roundTrips_iff`.
-/
import Mathlib.Data.List.Basic
import Mathlib.Data.List.Nodup
import Mathlib.Data.List.TakeWhile

namespace ConnString

abbrev Text := List UInt8

abbrev Setting := Text × Text

def isBlank (c : UInt8) : Bool := c == 32 || (9 ≤ c && c ≤ 13)

/-! ### The grammar -/

/-- A value in quotes, from after the first, and what follows it. -/
def quoted : Text → Option (Text × Text)
  | [] => none
  | [b] => if b = 39 then some ([], []) else none
  | b :: c :: t =>
    if b = 39 then some ([], c :: t)
    else if b = 92 then (quoted t).map fun r => (c :: r.1, r.2)
    else (quoted (c :: t)).map fun r => (b :: r.1, r.2)

/-- A value without quotes, and what follows the white space that ends it. -/
def bare : Text → Option (Text × Text)
  | [] => some ([], [])
  | [b] => if isBlank b then some ([], []) else if b = 92 then none else some ([b], [])
  | b :: c :: t =>
    if isBlank b then some ([], c :: t)
    else if b = 92 then (bare t).map fun r => (c :: r.1, r.2)
    else (bare (c :: t)).map fun r => (b :: r.1, r.2)

def value : Text → Option (Text × Text)
  | [] => some ([], [])
  | b :: t => if b = 39 then quoted t else bare (b :: t)

def trim (s : Text) : Text := ((s.dropWhile isBlank).reverse.dropWhile isBlank).reverse

/-- The setting at the front of a string, and what follows it. -/
def setting (s : Text) : Option (Setting × Text) :=
  match s.dropWhile (· != 61) with
  | [] => none
  | _ :: t =>
    if trim (s.takeWhile (· != 61)) = [] then none
    else (value (t.dropWhile isBlank)).map fun r => ((trim (s.takeWhile (· != 61)), r.1), r.2)

/-- The settings of a string, with fuel for each. -/
def settings : ℕ → Text → Option (List Setting)
  | _, [] => some []
  | 0, _ :: _ => none
  | n + 1, b :: s => (setting (b :: s)).bind fun r => (settings n r.2).map (r.1 :: ·)

def parse (s : Text) : Option (List Setting) := settings s.length s

/-- What a key is set to: the last setting counts. -/
def valueOf (kvs : List Setting) (k : Text) : Option Text :=
  kvs.foldl (fun v kv => if kv.1 = k then some kv.2 else v) none

/-- The settings of a string, as a relation. -/
inductive Parses : Text → List Setting → Prop
  | nil : Parses [] []
  | cons {s rest : Text} {kv : Setting} {kvs : List Setting} (hset : setting s = some (kv, rest))
      (hrest : Parses rest kvs) : Parses s (kv :: kvs)

/-! ### Reading -/

theorem quoted_close (t : Text) : quoted (39 :: t) = some ([], t) := by
  rcases t with _ | ⟨c, t⟩
  · rfl
  · rw [quoted, if_pos rfl]

theorem quoted_slash (c : UInt8) (t : Text) : quoted (92 :: c :: t) = (quoted t).map fun r => (c :: r.1, r.2) := by
  rw [quoted, if_neg (by decide), if_pos rfl]

theorem quoted_plain {b : UInt8} (hquote : b ≠ 39) (hslash : b ≠ 92) (t : Text) :
    quoted (b :: t) = (quoted t).map fun r => (b :: r.1, r.2) := by
  rcases t with _ | ⟨c, t⟩
  · exact if_neg hquote
  · rw [quoted, if_neg hquote, if_neg hslash]

theorem bare_blank {b : UInt8} (hblank : isBlank b = true) (t : Text) : bare (b :: t) = some ([], t) := by
  rcases t with _ | ⟨c, t⟩
  · exact if_pos hblank
  · rw [bare, if_pos hblank]

theorem bare_slash (c : UInt8) (t : Text) : bare (92 :: c :: t) = (bare t).map fun r => (c :: r.1, r.2) := by
  rw [bare, if_neg (by decide), if_pos rfl]

theorem bare_plain {b : UInt8} (hblank : isBlank b = false) (hslash : b ≠ 92) (t : Text) :
    bare (b :: t) = (bare t).map fun r => (b :: r.1, r.2) := by
  have hb : ¬isBlank b = true := Bool.eq_false_iff.mp hblank
  rcases t with _ | ⟨c, t⟩
  · exact (if_neg hb).trans (if_neg hslash)
  · rw [bare, if_neg hb, if_neg hslash]

/-- A value in quotes, as a relation. -/
inductive Quoted : Text → Text → Text → Prop
  | close (t : Text) : Quoted (39 :: t) [] t
  | slash {c : UInt8} {t v rest : Text} (h : Quoted t v rest) : Quoted (92 :: c :: t) (c :: v) rest
  | plain {b : UInt8} {t v rest : Text} (hquote : b ≠ 39) (hslash : b ≠ 92) (h : Quoted t v rest) :
      Quoted (b :: t) (b :: v) rest

/-- A value without quotes, as a relation. -/
inductive Bare : Text → Text → Text → Prop
  | nil : Bare [] [] []
  | blank {b : UInt8} (hblank : isBlank b = true) (t : Text) : Bare (b :: t) [] t
  | slash {c : UInt8} {t v rest : Text} (h : Bare t v rest) : Bare (92 :: c :: t) (c :: v) rest
  | plain {b : UInt8} {t v rest : Text} (hblank : isBlank b = false) (hslash : b ≠ 92) (h : Bare t v rest) :
      Bare (b :: t) (b :: v) rest

/-- What a reader makes of the rest, with one more character in front of the value. -/
theorem map_cons_eq_some {o : Option (Text × Text)} {b : UInt8} {v rest : Text}
    (h : (o.map fun r => (b :: r.1, r.2)) = some (v, rest)) : ∃ v', v = b :: v' ∧ o = some (v', rest) := by
  obtain ⟨⟨v', r⟩, ho, hr⟩ := Option.map_eq_some_iff.mp h
  obtain ⟨rfl, rfl⟩ := Prod.mk.inj hr
  exact ⟨v', rfl, ho⟩

theorem Quoted.of_eq : ∀ {t v rest : Text}, quoted t = some (v, rest) → Quoted t v rest
  | [], _, _, h => by cases h
  | b :: t, v, rest, h => by
    by_cases hquote : b = 39
    · rw [hquote, quoted_close] at h
      obtain ⟨rfl, rfl⟩ := Prod.mk.inj (Option.some.inj h)
      rw [hquote]
      exact .close _
    by_cases hslash : b = 92
    · subst hslash
      match t, h with
      | c :: t, h =>
        rw [quoted_slash] at h
        obtain ⟨v', rfl, hmore⟩ := map_cons_eq_some h
        exact .slash (.of_eq hmore)
    · rw [quoted_plain hquote hslash] at h
      obtain ⟨v', rfl, hmore⟩ := map_cons_eq_some h
      exact .plain hquote hslash (.of_eq hmore)

theorem Bare.of_eq : ∀ {t v rest : Text}, bare t = some (v, rest) → Bare t v rest
  | [], v, rest, h => by
    obtain ⟨rfl, rfl⟩ := Prod.mk.inj (Option.some.inj h)
    exact .nil
  | b :: t, v, rest, h => by
    by_cases hblank : isBlank b = true
    · rw [bare_blank hblank] at h
      obtain ⟨rfl, rfl⟩ := Prod.mk.inj (Option.some.inj h)
      exact .blank hblank _
    by_cases hslash : b = 92
    · subst hslash
      match t, h with
      | c :: t, h =>
        rw [bare_slash] at h
        obtain ⟨v', rfl, hmore⟩ := map_cons_eq_some h
        exact .slash (.of_eq hmore)
    · rw [bare_plain (Bool.eq_false_iff.mpr hblank) hslash] at h
      obtain ⟨v', rfl, hmore⟩ := map_cons_eq_some h
      exact .plain (Bool.eq_false_iff.mpr hblank) hslash (.of_eq hmore)

theorem Quoted.suffix {t v rest : Text} (h : Quoted t v rest) : rest <:+ t := by
  induction h with
  | close t => exact List.suffix_cons 39 t
  | @slash c t v rest _ ih => exact ih.trans ⟨[92, c], rfl⟩
  | plain _ _ _ ih => exact ih.trans (List.suffix_cons _ _)

theorem Bare.suffix {t v rest : Text} (h : Bare t v rest) : rest <:+ t := by
  induction h with
  | nil => exact List.suffix_rfl
  | blank _ t => exact List.suffix_cons _ t
  | @slash c t v rest _ ih => exact ih.trans ⟨[92, c], rfl⟩
  | plain _ _ _ ih => exact ih.trans (List.suffix_cons _ _)

theorem value_suffix {t v rest : Text} (h : value t = some (v, rest)) : rest <:+ t := by
  rcases t with _ | ⟨b, t⟩
  · obtain ⟨-, rfl⟩ := Prod.mk.inj (Option.some.inj h)
    exact List.suffix_rfl
  · rw [value] at h
    split_ifs at h
    · exact (Quoted.of_eq h).suffix.trans (List.suffix_cons b t)
    · exact (Bare.of_eq h).suffix

/-- A setting is a key, `=`, white space and a value. -/
theorem setting_split {s k v rest : Text} (h : setting s = some ((k, v), rest)) :
    ∃ pre blanks t, s = pre ++ 61 :: (blanks ++ t) ∧ (∀ c ∈ blanks, isBlank c = true) ∧ k = trim pre ∧
      value t = some (v, rest) := by
  have hsplit := List.takeWhile_append_dropWhile (p := (· != 61)) (l := s)
  unfold setting at h
  rcases hdrop : s.dropWhile (· != 61) with _ | ⟨c, t⟩
  · rw [hdrop] at h
    cases h
  · have hc : c = 61 := by
      have hhead := List.head?_dropWhile_not (· != 61) s
      rw [hdrop] at hhead
      simpa using hhead
    rw [hdrop] at h hsplit
    dsimp only at h
    split_ifs at h
    obtain ⟨⟨v', r⟩, hvalue, hr⟩ := Option.map_eq_some_iff.mp h
    obtain ⟨hkv, rfl⟩ := Prod.mk.inj hr
    obtain ⟨rfl, rfl⟩ := Prod.mk.inj hkv
    refine ⟨_, t.takeWhile isBlank, t.dropWhile isBlank, ?_, fun c hc => List.mem_takeWhile_imp hc, rfl, hvalue⟩
    rw [List.takeWhile_append_dropWhile]
    rw [hc] at hsplit
    exact hsplit.symm

theorem setting_suffix {s rest : Text} {kv : Setting} (h : setting s = some (kv, rest)) :
    ∃ w, s = w ++ rest ∧ rest.length < s.length := by
  obtain ⟨pre, blanks, t, rfl, -, -, hvalue⟩ := setting_split h
  obtain ⟨w, rfl⟩ := value_suffix hvalue
  refine ⟨pre ++ 61 :: (blanks ++ w), by simp, ?_⟩
  simp only [List.length_append, List.length_cons]
  omega

theorem settings_iff : ∀ {n : ℕ} {s : Text} {kvs : List Setting}, s.length ≤ n →
    (settings n s = some kvs ↔ Parses s kvs)
  | n, [], kvs, _ => by
    rw [settings.eq_def]
    constructor
    · intro h
      obtain rfl := Option.some.inj h
      exact .nil
    · intro h
      cases h with
      | nil => rfl
      | cons hset _ => cases hset
  | 0, b :: s, kvs, hn => absurd hn (Nat.not_succ_le_zero _)
  | n + 1, b :: s, kvs, hn => by
    rw [settings]
    constructor
    · intro h
      obtain ⟨⟨kv, rest⟩, hset, h⟩ := Option.bind_eq_some_iff.mp h
      obtain ⟨more, hmore, rfl⟩ := Option.map_eq_some_iff.mp h
      obtain ⟨-, -, hlt⟩ := setting_suffix hset
      exact .cons hset ((settings_iff (by simp only [List.length_cons] at hn hlt; omega)).mp hmore)
    · intro h
      cases h with
      | cons hset hrest =>
        obtain ⟨-, -, hlt⟩ := setting_suffix hset
        have hmore := (settings_iff (n := n) (by simp only [List.length_cons] at hn hlt; omega)).mpr hrest
        rw [hset, Option.bind_some, hmore]
        rfl

/-- The fuel is enough. -/
theorem parse_iff {s : Text} {kvs : List Setting} : parse s = some kvs ↔ Parses s kvs :=
  settings_iff (Nat.le_refl _)

theorem Parses.uncons {s : Text} {kvs : List Setting} (h : Parses s kvs) (hs : s ≠ []) :
    ∃ kv rest kvs', setting s = some (kv, rest) ∧ kvs = kv :: kvs' ∧ Parses rest kvs' := by
  cases h with
  | nil => exact absurd rfl hs
  | cons hset hrest => exact ⟨_, _, _, hset, rfl, hrest⟩

/-- Every setting is read at some place, and what follows it is read on. -/
theorem Parses.mem {s : Text} {kvs : List Setting} (h : Parses s kvs) {kv : Setting} (hkv : kv ∈ kvs) :
    ∃ w s' rest kvs', s = w ++ s' ∧ setting s' = some (kv, rest) ∧ Parses rest kvs' ∧ kvs' ⊆ kvs := by
  induction h with
  | nil => cases hkv
  | @cons s rest kv' kvs hset hrest ih =>
    rcases List.mem_cons.mp hkv with rfl | hmem
    · exact ⟨[], s, rest, kvs, rfl, hset, hrest, List.subset_cons_self _ _⟩
    · obtain ⟨w, s', rest', kvs', rfl, hset', hrest', hsub⟩ := ih hmem
      obtain ⟨w', rfl, -⟩ := setting_suffix hset
      exact ⟨w' ++ w, s', rest', kvs', (List.append_assoc ..).symm, hset', hrest',
        fun kv' hkv' => List.mem_cons_of_mem _ (hsub hkv')⟩

/-- What a key is set to is one of its settings. -/
theorem mem_of_valueOf {kvs : List Setting} {k v : Text} (h : valueOf kvs k = some v) : (k, v) ∈ kvs := by
  suffices hfold : ∀ (kvs : List Setting) (old : Option Text),
      kvs.foldl (fun v kv => if kv.1 = k then some kv.2 else v) old = some v → (k, v) ∈ kvs ∨ old = some v by
    obtain hmem | hnone := hfold kvs none h
    · exact hmem
    · cases hnone
  intro kvs
  induction kvs with
  | nil => exact fun old h => .inr h
  | cons kv kvs ih =>
    intro old h
    obtain hmem | hold := ih _ h
    · exact .inl (List.mem_cons_of_mem _ hmem)
    · dsimp only at hold
      by_cases hk : kv.1 = k
      · rw [if_pos hk] at hold
        obtain ⟨k', v'⟩ := kv
        obtain rfl := hk
        obtain rfl := Option.some.inj hold
        exact .inl List.mem_cons_self
      · rw [if_neg hk] at hold
        exact .inr hold

/-! ### Writing -/

/-- Which values are quoted. -/
structure Style where
  trigger : UInt8 → Bool
  quotesEmpty : Bool
  special : trigger 32 = true ∧ trigger 39 = true ∧ trigger 92 = true

/-- Quotes and backslashes doubled. -/
def escape (s : Text) : Text := s.flatMap fun c => if c = 39 ∨ c = 92 then [c, c] else [c]

namespace Style

variable (q : Style)

/-- The value is put in quotes. -/
def quotes (v : Text) : Bool := v.any q.trigger || (v.isEmpty && q.quotesEmpty)

def quote (v : Text) : Text := if q.quotes v then 39 :: (escape v ++ [39]) else v

/-- The string of some fields. -/
def render : List Setting → Text
  | [] => []
  | [f] => f.1 ++ 61 :: q.quote f.2
  | f :: g :: fs => f.1 ++ 61 :: (q.quote f.2 ++ 32 :: render (g :: fs))

/-- A value that is read as it was meant. -/
def Safe (v : Text) : Prop := 39 ∉ v ∧ (q.quotes v = true ∨ v ≠ [] ∧ ∀ c ∈ v, isBlank c = false)

end Style

/-- A key: a word without any character that means something. -/
def IsKey (k : Text) : Prop := k ≠ [] ∧ ∀ c ∈ k, isBlank c = false ∧ c ≠ 61 ∧ c ≠ 39 ∧ c ≠ 92

instance : DecidablePred IsKey := fun _ => inferInstanceAs (Decidable (_ ∧ _))

theorem escape_cons (c : UInt8) (s : Text) :
    escape (c :: s) = (if c = 39 ∨ c = 92 then [c, c] else [c]) ++ escape s := by
  rw [escape, List.flatMap_cons, ← escape]

theorem mem_escape {c : UInt8} {s : Text} : c ∈ escape s ↔ c ∈ s := by
  unfold escape
  rw [List.mem_flatMap]
  constructor
  · intro ⟨d, hd, hc⟩
    split_ifs at hc
    · simp only [List.mem_cons, List.not_mem_nil, or_false, or_self] at hc
      rwa [hc]
    · simp only [List.mem_cons, List.not_mem_nil, or_false] at hc
      rwa [hc]
  · intro hc
    refine ⟨c, hc, ?_⟩
    split_ifs
    · exact List.mem_cons_self
    · exact List.mem_cons_self

theorem Style.quotes_of_mem (q : Style) {c : UInt8} {v : Text} (hc : c ∈ v) (htrigger : q.trigger c = true) :
    q.quotes v = true :=
  (Bool.or_eq_true ..).mpr (.inl (List.any_eq_true.mpr ⟨c, hc, htrigger⟩))

/-- A value that is left bare has no special character. -/
theorem Style.bare_chars (q : Style) {v : Text} (h : q.quotes v = false) : 32 ∉ v ∧ 39 ∉ v ∧ 92 ∉ v := by
  have hno : ∀ c ∈ v, q.trigger c = true → False := by
    intro c hc htrigger
    rw [q.quotes_of_mem hc htrigger] at h
    cases h
  exact ⟨fun hc => hno _ hc q.special.1, fun hc => hno _ hc q.special.2.1, fun hc => hno _ hc q.special.2.2⟩

/-- The string of a field and what comes after it: the other fields, if there are any. -/
theorem Style.render_cons (q : Style) (f : Setting) (fs : List Setting) :
    ∃ tail, q.render (f :: fs) = f.1 ++ 61 :: (q.quote f.2 ++ tail) ∧
      (fs = [] ∧ tail = [] ∨ fs ≠ [] ∧ tail = 32 :: q.render fs) := by
  rcases fs with _ | ⟨g, fs⟩
  · exact ⟨[], by rw [List.append_nil]; rfl, .inl ⟨rfl, rfl⟩⟩
  · exact ⟨_, rfl, .inr ⟨List.cons_ne_nil _ _, rfl⟩⟩

theorem Style.render_concat (q : Style) (f : Setting) : ∀ {fs : List Setting}, fs ≠ [] →
    q.render (fs ++ [f]) = q.render fs ++ 32 :: (f.1 ++ 61 :: q.quote f.2)
  | [], h => absurd rfl h
  | [g], _ => by simp [render]
  | g :: h :: fs, _ => by
    have ih := q.render_concat f (List.cons_ne_nil h fs)
    rw [List.cons_append] at ih
    rw [List.cons_append, List.cons_append, render, ih, render]
    simp

/-! ### The quotes and backslashes of a string -/

/-- Every backslash is one of a pair. -/
inductive Paired : Text → Prop
  | nil : Paired []
  | plain {c : UInt8} {s : Text} (hc : c ≠ 92) (hs : Paired s) : Paired (c :: s)
  | pair {s : Text} (hs : Paired s) : Paired (92 :: 92 :: s)

namespace Paired

theorem append {s t : Text} (hs : Paired s) (ht : Paired t) : Paired (s ++ t) := by
  induction hs with
  | nil => exact ht
  | plain hc _ ih => exact .plain hc ih
  | pair _ ih => exact .pair ih

theorem of_not_mem : ∀ {s : Text}, 92 ∉ s → Paired s
  | [], _ => .nil
  | c :: _, h => .plain (fun hc => h (hc ▸ List.mem_cons_self)) (of_not_mem fun hs => h (List.mem_cons_of_mem c hs))

theorem escape : ∀ s : Text, Paired (escape s)
  | [] => .nil
  | c :: s => by
    rw [escape_cons]
    by_cases hc : c = 92
    · rw [if_pos (.inr hc), hc]
      exact .pair (escape s)
    · refine append (of_not_mem fun hmem => ?_) (escape s)
      split_ifs at hmem
      · simp only [List.mem_cons, List.not_mem_nil, or_false, or_self] at hmem
        exact hc hmem.symm
      · simp only [List.mem_cons, List.not_mem_nil, or_false] at hmem
        exact hc hmem.symm

/-- What comes after another character is paired in itself. -/
theorem after {c : UInt8} (hc : c ≠ 92) {s : Text} : ∀ {x : Text}, Paired (x ++ c :: s) → Paired s
  | [], h => by
    cases h with
    | plain _ hs => exact hs
    | pair _ => exact absurd rfl hc
  | b :: [], h => by
    cases h with
    | plain _ hs => exact after hc (x := []) hs
    | pair _ => exact absurd rfl hc
  | b :: d :: x, h => by
    cases h with
    | plain _ hs => exact after hc (x := d :: x) hs
    | pair hs => exact after hc hs

end Paired

theorem Style.paired_render (q : Style) : ∀ {fs : List Setting}, (∀ f ∈ fs, IsKey f.1) → Paired (q.render fs)
  | [], _ => .nil
  | f :: fs, hkeys => by
    obtain ⟨hkey, hrest⟩ := List.forall_mem_cons.mp hkeys
    obtain ⟨tail, hrender, htail⟩ := q.render_cons f fs
    have hpaired : Paired tail := by
      obtain ⟨-, rfl⟩ | ⟨-, rfl⟩ := htail
      · exact .nil
      · exact .plain (by decide) (q.paired_render hrest)
    rw [hrender]
    refine .append (.of_not_mem fun hmem => (hkey.2 92 hmem).2.2.2 rfl) (.plain (by decide) (.append ?_ hpaired))
    unfold quote
    by_cases hq : q.quotes f.2 = true
    · rw [if_pos hq]
      exact .plain (by decide) (.append (.escape f.2) (.plain (by decide) .nil))
    · rw [if_neg hq]
      exact .of_not_mem (q.bare_chars (Bool.eq_false_iff.mpr hq)).2.2

/-- A quote behind a text without quotes. -/
theorem skip_text {a b x z : Text} (ha : 39 ∉ a) (h : a ++ b = x ++ 39 :: z) : ∃ y, x = a ++ y ∧ b = y ++ 39 :: z := by
  obtain ⟨y, hx, hb⟩ | ⟨y, ha', hz⟩ := List.append_eq_append_iff.mp h
  · exact ⟨y, hx, hb⟩
  · rcases y with _ | ⟨c, y⟩
    · rw [List.append_nil] at ha'
      exact ⟨[], by rw [ha', List.append_nil], hz.symm⟩
    · obtain ⟨hc, -⟩ := List.cons.inj hz
      exact absurd (by rw [ha', ← hc]; simp) ha

/-- What a quote with `x` before it and `z` behind it can be: an opening quote, with the
value it opens; a closing one, which ends the string or has a blank behind it; the first
of a pair; and the second. -/
inductive QuoteRole (q : Style) (x z : Text) : Prop
  | opens (v w : Text) (hq : q.quotes v = true) (hz : z = escape v ++ 39 :: w)
  | closes (hz : z = [] ∨ ∃ z', z = 32 :: z')
  | first (z' : Text) (hz : z = 39 :: z')
  | second (y : Text) (hx : x = y ++ [39])

theorem QuoteRole.prepend {q : Style} {x z : Text} (h : QuoteRole q x z) (a : Text) : QuoteRole q (a ++ x) z := by
  cases h with
  | opens v w hq hz => exact .opens v w hq hz
  | closes hz => exact .closes hz
  | first z' hz => exact .first z' hz
  | second y hx => exact .second (a ++ y) (by rw [hx, List.append_assoc])

/-- The quotes of an escaped value, its closing quote and those after it. -/
theorem escape_quotes (q : Style) {tail z : Text} (htail : tail = [] ∨ ∃ z', tail = 32 :: z')
    (hlater : ∀ {x : Text}, tail = x ++ 39 :: z → QuoteRole q x z) :
    ∀ {v x : Text}, escape v ++ 39 :: tail = x ++ 39 :: z → QuoteRole q x z
  | [], [], h => by
    obtain ⟨-, rfl⟩ := List.cons.inj h
    exact .closes htail
  | [], b :: x, h => by
    obtain ⟨-, hx⟩ := List.cons.inj h
    exact (hlater hx).prepend [b]
  | c :: v, x, h => by
    rw [escape_cons] at h
    by_cases hc : c = 39 ∨ c = 92
    · rw [if_pos hc] at h
      rcases x with _ | ⟨b, _ | ⟨b', x⟩⟩
      · obtain ⟨rfl, hz⟩ := List.cons.inj h
        exact .first _ hz.symm
      · obtain ⟨rfl, hz⟩ := List.cons.inj h
        obtain ⟨rfl, -⟩ := List.cons.inj hz
        exact .second [] rfl
      · obtain ⟨rfl, hx⟩ := List.cons.inj h
        obtain ⟨rfl, hrest⟩ := List.cons.inj hx
        exact (escape_quotes q htail hlater hrest).prepend [c, c]
    · rw [if_neg hc] at h
      rcases x with _ | ⟨b, x⟩
      · obtain ⟨rfl, -⟩ := List.cons.inj h
        exact absurd (.inl rfl) hc
      · obtain ⟨rfl, hrest⟩ := List.cons.inj h
        exact (escape_quotes q htail hlater hrest).prepend [c]

/-- **The quotes of a string** are delimiters and doubled ones. -/
theorem Style.quote_cases (q : Style) : ∀ {fs : List Setting}, (∀ f ∈ fs, IsKey f.1) → ∀ {x z : Text},
    q.render fs = x ++ 39 :: z → QuoteRole q x z
  | [], _, x, z, h => by simp [render] at h
  | f :: fs, hkeys, x, z, h => by
    obtain ⟨hkey, hrest⟩ := List.forall_mem_cons.mp hkeys
    obtain ⟨tail, hrender, htail⟩ := q.render_cons f fs
    rw [hrender] at h
    obtain ⟨x₁, rfl, hvalue⟩ := skip_text (fun hmem => (hkey.2 39 hmem).2.2.1 rfl) h
    obtain ⟨x₂, rfl, htext⟩ := skip_text (a := [61]) (by decide) hvalue
    have hlater : ∀ {x₃ : Text}, tail = x₃ ++ 39 :: z → QuoteRole q x₃ z := by
      intro x₃ htail'
      obtain ⟨-, rfl⟩ | ⟨-, rfl⟩ := htail
      · simp at htail'
      · obtain ⟨x₄, rfl, hfields⟩ := skip_text (a := [32]) (by decide) htail'
        exact (q.quote_cases hrest hfields).prepend [32]
    refine QuoteRole.prepend (QuoteRole.prepend ?_ [61]) f.1
    unfold quote at htext
    by_cases hq : q.quotes f.2 = true
    · rw [if_pos hq] at htext
      rcases x₂ with _ | ⟨b, x₂⟩
      · obtain ⟨-, rfl⟩ := List.cons.inj htext
        exact .opens f.2 tail hq (by simp)
      · obtain ⟨-, hbody⟩ := List.cons.inj htext
        have hspace : tail = [] ∨ ∃ z', tail = 32 :: z' :=
          htail.imp (fun h => h.2) (fun h => ⟨_, h.2⟩)
        exact (escape_quotes q hspace hlater (by simpa using hbody)).prepend [b]
    · rw [if_neg hq] at htext
      obtain ⟨x₃, rfl, hafter⟩ := skip_text (q.bare_chars (Bool.eq_false_iff.mpr hq)).2.1 htext
      exact (hlater hafter).prepend f.2

/-! ### Values that should have been quoted -/

/-- In quotes, a value without backslashes is what stands there. -/
theorem Quoted.literal {t v rest : Text} (h : Quoted t v rest) (ht : Paired t) (hv : 92 ∉ v) : t = v ++ 39 :: rest := by
  induction h with
  | close t => rfl
  | slash _ _ =>
    cases ht with
    | plain hne _ => exact absurd rfl hne
    | pair _ => exact absurd List.mem_cons_self hv
  | @plain b t v rest _ hslash _ ih =>
    cases ht with
    | plain _ ht => rw [ih ht fun hmem => hv (List.mem_cons_of_mem b hmem), List.cons_append]
    | pair _ => exact absurd rfl hslash

/-- Without quotes, a value without backslashes has no white space. -/
theorem Bare.word {t v rest : Text} (h : Bare t v rest) (ht : Paired t) (hv : 92 ∉ v) : ∀ c ∈ v, isBlank c = false := by
  induction h with
  | nil => simp
  | blank _ _ => simp
  | slash _ _ =>
    cases ht with
    | plain hne _ => exact absurd rfl hne
    | pair _ => exact absurd List.mem_cons_self hv
  | @plain b t v rest hblank hslash _ ih =>
    cases ht with
    | plain _ ht => exact List.forall_mem_cons.mpr ⟨hblank, ih ht fun hmem => hv (List.mem_cons_of_mem b hmem)⟩
    | pair _ => exact absurd rfl hslash

theorem Paired.of_blanks {t : Text} : ∀ {blanks : Text}, (∀ c ∈ blanks, isBlank c = true) → Paired (blanks ++ t) →
    Paired t
  | [], _, h => h
  | b :: blanks, hblanks, h => by
    obtain ⟨hb, hrest⟩ := List.forall_mem_cons.mp hblanks
    have hne : b ≠ 92 := by
      rintro rfl
      cases hb
    exact of_blanks hrest (after hne (x := []) h)

theorem Style.quotes_escape (q : Style) (v : Text) : q.quotes (escape v) = q.quotes v := by
  have hany : (escape v).any q.trigger = v.any q.trigger := by
    rw [Bool.eq_iff_iff, List.any_eq_true, List.any_eq_true]
    simp only [mem_escape]
  have hempty : (escape v).isEmpty = v.isEmpty := by
    rw [Bool.eq_iff_iff, List.isEmpty_iff, List.isEmpty_iff, List.eq_nil_iff_forall_not_mem,
      List.eq_nil_iff_forall_not_mem]
    simp only [mem_escape]
  unfold quotes
  rw [hany, hempty]

/-- An escaped value up to its first quote. -/
theorem escape_split : ∀ {u : Text}, 39 ∈ u → ∃ v r, 39 ∉ v ∧ escape u = escape v ++ 39 :: 39 :: r
  | [], hu => absurd hu List.not_mem_nil
  | c :: u, hu => by
    by_cases hc : c = 39
    · rw [escape_cons, if_pos (.inl hc), hc]
      exact ⟨[], escape u, List.not_mem_nil, rfl⟩
    · obtain ⟨v, r, hv, hsplit⟩ := escape_split ((List.mem_cons.mp hu).resolve_left (Ne.symm hc))
      refine ⟨c :: v, r, fun hmem => ?_, by rw [escape_cons, escape_cons, hsplit, List.append_assoc]⟩
      obtain hmem | hmem := List.mem_cons.mp hmem
      · exact hc hmem.symm
      · exact hv hmem

/-- The first quote of a string is where it is. -/
theorem first_quote {a b x z : Text} (ha : 39 ∉ a) (hx : 39 ∉ x) (h : a ++ 39 :: b = x ++ 39 :: z) :
    a = x ∧ b = z := by
  obtain ⟨y, rfl, hb⟩ := skip_text ha h
  rcases y with _ | ⟨c, y⟩
  · exact ⟨(List.append_nil a).symm, (List.cons.inj hb).2⟩
  · obtain ⟨rfl, -⟩ := List.cons.inj hb
    exact absurd (List.mem_append_right a List.mem_cons_self) hx

theorem mem_dropWhile {p : UInt8 → Bool} {c : UInt8} {s : Text} (hc : c ∈ s) (hp : p c = false) :
    c ∈ s.dropWhile p := by
  rw [← List.takeWhile_append_dropWhile (p := p) (l := s)] at hc
  obtain hmem | hmem := List.mem_append.mp hc
  · have hpos := List.mem_takeWhile_imp hmem
    rw [hp] at hpos
    cases hpos
  · exact hmem

theorem mem_trim {c : UInt8} {s : Text} (hc : c ∈ s) (hblank : isBlank c = false) : c ∈ trim s := by
  unfold trim
  rw [List.mem_reverse]
  apply mem_dropWhile _ hblank
  rw [List.mem_reverse]
  exact mem_dropWhile hc hblank

/-- Where a quote comes instead of a key, the quote is part of the key that is read. -/
theorem Parses.quote_in_key {r : Text} {kvs : List Setting} (h : Parses (39 :: r) kvs) : ∃ kv ∈ kvs, 39 ∈ kv.1 := by
  cases h with
  | @cons _ rest kv kvs hset _ =>
    refine ⟨kv, List.mem_cons_self, ?_⟩
    obtain ⟨pre, blanks, t, hs, -, hk, -⟩ := setting_split (k := kv.1) (v := kv.2) hset
    rw [hk]
    rcases pre with _ | ⟨c, pre⟩
    · exact absurd (List.cons.inj hs).1 (by decide)
    · rw [← (List.cons.inj hs).1]
      exact mem_trim List.mem_cons_self (by decide)

/-- What comes before a value is `=` or white space. -/
theorem no_quote_before {x y blanks : Text} (hblanks : ∀ c ∈ blanks, isBlank c = true)
    (h : x ++ 61 :: blanks = y ++ [39]) : False := by
  have hlast : (61 :: blanks).getLast? = some 39 := by
    have hget := congrArg List.getLast? h
    rwa [List.getLast?_append_of_ne_nil _ (List.cons_ne_nil _ _), List.getLast?_concat] at hget
  obtain hhead | hmem := List.mem_cons.mp (List.mem_of_getLast? hlast)
  · exact absurd hhead (by decide)
  · exact absurd (hblanks 39 hmem) (by decide)

/-- **A value that should have been quoted is not read**, wherever a reader looks for it. -/
theorem Style.bare_value_lost (q : Style) {fs kvs : List Setting} (hkeys : ∀ f ∈ fs, IsKey f.1)
    (hread : Parses (q.render fs) kvs) (hplain : ∀ kv ∈ kvs, 39 ∉ kv.1) {k v : Text} (hkv : (k, v) ∈ kvs)
    (hbare : q.quotes v = false) {c : UInt8} (hc : c ∈ v) (hblank : isBlank c = true) : False := by
  obtain ⟨h32, h39, h92⟩ := q.bare_chars hbare
  obtain ⟨w, s', rest, kvs', hs, hset, hrest, hsub⟩ := hread.mem hkv
  obtain ⟨pre, blanks, t, rfl, hblanks, -, hvalue⟩ := setting_split hset
  have hpaired : Paired t := by
    have hall := q.paired_render hkeys
    rw [hs, ← List.append_assoc] at hall
    exact .of_blanks hblanks (.after (by decide) hall)
  rcases t with _ | ⟨b, t⟩
  · obtain ⟨rfl, -⟩ := Prod.mk.inj (Option.some.inj hvalue)
    cases hc
  · rw [value] at hvalue
    by_cases hb : b = 39
    · rw [if_pos hb] at hvalue
      obtain rfl := hb
      obtain rfl := (Quoted.of_eq hvalue).literal (.after (x := []) (by decide) hpaired) h92
      have hwhole : q.render fs = (w ++ pre ++ 61 :: blanks) ++ 39 :: (v ++ 39 :: rest) := by
        rw [hs]
        simp
      -- `v` stands between quotes; the first of them is none that the builder writes before `v`
      cases q.quote_cases hkeys hwhole with
      | opens u z hq hz =>
        by_cases hu : 39 ∈ u
        · obtain ⟨v', r, hv', hsplit⟩ := escape_split hu
          rw [hsplit, List.append_assoc] at hz
          obtain ⟨-, rfl⟩ := first_quote h39 (fun hmem => hv' (mem_escape.mp hmem)) hz
          obtain ⟨kv, hmem, hquote⟩ := hrest.quote_in_key
          exact hplain kv (hsub hmem) hquote
        · obtain ⟨rfl, -⟩ := first_quote h39 (fun hmem => hu (mem_escape.mp hmem)) hz
          rw [q.quotes_escape, hq] at hbare
          cases hbare
      | closes hz =>
        rcases v with _ | ⟨d, v⟩
        · cases hc
        · obtain hz | ⟨z', hz⟩ := hz
          · cases hz
          · obtain ⟨rfl, -⟩ := List.cons.inj hz
            exact h32 List.mem_cons_self
      | first z' hz =>
        rcases v with _ | ⟨d, v⟩
        · cases hc
        · obtain ⟨rfl, -⟩ := List.cons.inj hz
          exact h39 List.mem_cons_self
      | second y hx => exact no_quote_before hblanks hx
    · rw [if_neg hb] at hvalue
      rw [(Bare.of_eq hvalue).word hpaired h92 c hc] at hblank
      cases hblank

/-! ### Field after field -/

theorem trim_key {k lead : Text} (hk : IsKey k) (hlead : ∀ c ∈ lead, isBlank c = true) : trim (lead ++ k) = k := by
  have hfront : ∀ {s : Text}, s ≠ [] → (∀ c ∈ s, isBlank c = false) → s.dropWhile isBlank = s := by
    intro s hs hword
    rcases s with _ | ⟨c, s⟩
    · exact absurd rfl hs
    · exact List.dropWhile_cons_of_neg (by rw [hword c List.mem_cons_self]; decide)
  have hword : ∀ c ∈ k, isBlank c = false := fun c hc => (hk.2 c hc).1
  have hword' : ∀ c ∈ k.reverse, isBlank c = false := fun c hc => hword c (List.mem_reverse.mp hc)
  unfold trim
  rw [List.dropWhile_append_of_pos hlead, hfront hk.1 hword,
    hfront (List.reverse_ne_nil_iff.mpr hk.1) hword', List.reverse_reverse]

/-- The setting at a key. -/
theorem setting_key {k lead t : Text} (hk : IsKey k) (hlead : ∀ c ∈ lead, isBlank c = true) :
    setting (lead ++ (k ++ 61 :: t)) = (value (t.dropWhile isBlank)).map fun r => ((k, r.1), r.2) := by
  have hne : ∀ c ∈ lead ++ k, (c != 61) = true := by
    intro c hc
    rw [bne_iff_ne]
    rintro rfl
    obtain hc | hc := List.mem_append.mp hc
    · cases hlead 61 hc
    · exact (hk.2 61 hc).2.1 rfl
  have htake : (lead ++ (k ++ 61 :: t)).takeWhile (· != 61) = lead ++ k := by
    rw [← List.append_assoc, List.takeWhile_append_of_pos hne, List.takeWhile_cons_of_neg (by decide), List.append_nil]
  have hdrop : (lead ++ (k ++ 61 :: t)).dropWhile (· != 61) = 61 :: t := by
    rw [← List.append_assoc, List.dropWhile_append_of_pos hne, List.dropWhile_cons_of_neg (by decide)]
  unfold setting
  rw [hdrop, htake, trim_key hk hlead]
  dsimp only
  rw [if_neg hk.1]

/-- Without a quote in it, an escaped value is read to its end. -/
theorem quoted_escape {t : Text} : ∀ {v : Text}, 39 ∉ v → quoted (escape v ++ 39 :: t) = some (v, t)
  | [], _ => quoted_close t
  | c :: v, hv => by
    have hc : c ≠ 39 := fun hc => hv (hc ▸ List.mem_cons_self)
    have ih := quoted_escape (t := t) fun hmem => hv (List.mem_cons_of_mem c hmem)
    rw [escape_cons, List.append_assoc]
    by_cases hslash : c = 92
    · rw [if_pos (.inr hslash), hslash]
      change quoted (92 :: 92 :: (escape v ++ 39 :: t)) = _
      rw [quoted_slash, ih]
      rfl
    · rw [if_neg (not_or.mpr ⟨hc, hslash⟩)]
      change quoted (c :: (escape v ++ 39 :: t)) = _
      rw [quoted_plain hc hslash, ih]
      rfl

theorem bare_append {tail : Text} (htail : tail = [] ∨ ∃ z, tail = 32 :: z) : ∀ {v : Text},
    (∀ c ∈ v, isBlank c = false) → 92 ∉ v → bare (v ++ tail) = some (v, tail.drop 1)
  | [], _, _ => by
    obtain rfl | ⟨z, rfl⟩ := htail
    · rfl
    · exact bare_blank rfl z
  | c :: v, hword, hv => by
    obtain ⟨hc, hrest⟩ := List.forall_mem_cons.mp hword
    have ih := bare_append htail hrest fun hmem => hv (List.mem_cons_of_mem c hmem)
    rw [List.cons_append, bare_plain hc (fun h => hv (h ▸ List.mem_cons_self)), ih]
    rfl

/-- A quoted value, with what comes after it. -/
theorem Style.value_quoted (q : Style) {v : Text} (hq : q.quotes v = true) (tail : Text) :
    value ((q.quote v ++ tail).dropWhile isBlank) = quoted (escape v ++ 39 :: tail) := by
  unfold quote
  rw [if_pos hq, List.cons_append, List.dropWhile_cons_of_neg (by decide), value, if_pos rfl, List.append_assoc]
  rfl

theorem Style.value_safe (q : Style) {v tail : Text} (hsafe : q.Safe v) (htail : tail = [] ∨ ∃ z, tail = 32 :: z) :
    value ((q.quote v ++ tail).dropWhile isBlank) = some (v, if q.quotes v then tail else tail.drop 1) := by
  by_cases hq : q.quotes v = true
  · rw [q.value_quoted hq, quoted_escape hsafe.1, if_pos hq]
  · obtain ⟨hne, hword⟩ := hsafe.2.resolve_left hq
    obtain ⟨-, h39, h92⟩ := q.bare_chars (Bool.eq_false_iff.mpr hq)
    have hread := bare_append htail hword h92
    unfold quote
    rw [if_neg hq, if_neg hq]
    rcases v with _ | ⟨c, v⟩
    · exact absurd rfl hne
    · rw [List.cons_append, List.dropWhile_cons_of_neg (by rw [hword c List.mem_cons_self]; decide), value,
        if_neg fun hc : c = 39 => h39 (hc ▸ List.mem_cons_self)]
      exact hread

/-- A value with a quote ends there, and leaves the second of the pair. -/
theorem Style.value_cut (q : Style) {v : Text} (hv : 39 ∈ v) (tail : Text) :
    ∃ v' r, value ((q.quote v ++ tail).dropWhile isBlank) = some (v', 39 :: r) := by
  obtain ⟨v', r, hv', hsplit⟩ := escape_split hv
  refine ⟨v', r ++ 39 :: tail, ?_⟩
  rw [q.value_quoted (q.quotes_of_mem hv q.special.2.1), hsplit, List.append_assoc]
  exact quoted_escape hv'

/-- What is left after a value that is read as it was meant: the other fields, perhaps behind a blank. -/
theorem Style.rest_eq (q : Style) {fs : List Setting} {tail : Text}
    (htail : fs = [] ∧ tail = [] ∨ fs ≠ [] ∧ tail = 32 :: q.render fs) (v : Text) :
    ∃ lead, (∀ c ∈ lead, isBlank c = true) ∧ (fs = [] → lead = []) ∧
      (if q.quotes v then tail else tail.drop 1) = lead ++ q.render fs := by
  obtain ⟨rfl, rfl⟩ | ⟨hfs, rfl⟩ := htail
  · exact ⟨[], by simp, fun _ => rfl, by split_ifs <;> rfl⟩
  · by_cases hq : q.quotes v = true
    · have hblank : ∀ c ∈ ([32] : Text), isBlank c = true := by
        intro c hc
        rw [List.mem_singleton.mp hc]
        rfl
      exact ⟨[32], hblank, fun h => absurd h hfs, if_pos hq⟩
    · exact ⟨[], by simp, fun _ => rfl, if_neg hq⟩

/-- **Safe values are read as they were meant.** -/
theorem Style.parses_render (q : Style) : ∀ {fs : List Setting} {lead : Text}, (∀ f ∈ fs, IsKey f.1) →
    (∀ f ∈ fs, q.Safe f.2) → (∀ c ∈ lead, isBlank c = true) → (fs = [] → lead = []) →
    Parses (lead ++ q.render fs) fs
  | [], _, _, _, _, hnil => by
    rw [hnil rfl]
    exact .nil
  | f :: fs, lead, hkeys, hsafe, hlead, _ => by
    obtain ⟨hkey, hkeys⟩ := List.forall_mem_cons.mp hkeys
    obtain ⟨hf, hsafe⟩ := List.forall_mem_cons.mp hsafe
    obtain ⟨tail, hrender, htail⟩ := q.render_cons f fs
    obtain ⟨lead', hlead', hnil, hrest⟩ := q.rest_eq htail f.2
    have hvalue := q.value_safe hf (htail.imp (fun h => h.2) (fun h => ⟨_, h.2⟩))
    rw [hrest] at hvalue
    refine .cons ?_ (q.parses_render hkeys hsafe hlead' hnil)
    rw [hrender, setting_key hkey hlead, hvalue]
    rfl

/-- Where no setting that is read has a quote in its key, no value has a quote, if all others are safe. -/
theorem Style.safe_of_parses (q : Style) : ∀ {fs kvs : List Setting} {lead : Text}, (∀ f ∈ fs, IsKey f.1) →
    (∀ f ∈ fs, q.Safe f.2 ∨ 39 ∈ f.2) → (∀ c ∈ lead, isBlank c = true) → (∀ kv ∈ kvs, 39 ∉ kv.1) →
    Parses (lead ++ q.render fs) kvs → ∀ f ∈ fs, q.Safe f.2
  | [], _, _, _, _, _, _, _ => by simp
  | f :: fs, kvs, lead, hkeys, hcases, hlead, hplain, hread => by
    obtain ⟨hkey, hkeys⟩ := List.forall_mem_cons.mp hkeys
    obtain ⟨hf, hcases⟩ := List.forall_mem_cons.mp hcases
    obtain ⟨tail, hrender, htail⟩ := q.render_cons f fs
    rw [hrender] at hread
    obtain ⟨kv, rest, kvs', hset, rfl, hrest⟩ := hread.uncons (by simp)
    obtain ⟨-, hplain⟩ := List.forall_mem_cons.mp hplain
    rw [setting_key hkey hlead] at hset
    obtain ⟨r, hvalue, hr⟩ := Option.map_eq_some_iff.mp hset
    obtain ⟨-, rfl⟩ := Prod.mk.inj hr
    by_cases hquote : 39 ∈ f.2
    · obtain ⟨v', r', hcut⟩ := q.value_cut hquote tail
      obtain rfl := Option.some.inj (hcut.symm.trans hvalue)
      obtain ⟨kv', hmem, hin⟩ := hrest.quote_in_key
      exact absurd hin (hplain kv' hmem)
    · have hsafe : q.Safe f.2 := hf.resolve_right hquote
      obtain ⟨lead', hlead', -, hleft⟩ := q.rest_eq htail f.2
      have hfull := q.value_safe hsafe (htail.imp (fun h => h.2) (fun h => ⟨_, h.2⟩))
      rw [hleft] at hfull
      obtain rfl := Option.some.inj (hfull.symm.trans hvalue)
      exact List.forall_mem_cons.mpr ⟨hsafe, q.safe_of_parses hkeys hcases hlead' hplain hrest⟩

/-! ### Round trips -/

/-- A key that is written once is set to its value. -/
theorem valueOf_of_mem {kvs : List Setting} (hkeys : (kvs.map Prod.fst).Nodup) {kv : Setting} (hkv : kv ∈ kvs) :
    valueOf kvs kv.1 = some kv.2 := by
  suffices hfold : ∀ (kvs : List Setting) (old : Option Text), (kvs.map Prod.fst).Nodup →
      (kv ∈ kvs ∨ (∀ kv' ∈ kvs, kv'.1 ≠ kv.1) ∧ old = some kv.2) →
      kvs.foldl (fun v kv' => if kv'.1 = kv.1 then some kv'.2 else v) old = some kv.2 from
    hfold kvs none hkeys (.inl hkv)
  intro kvs
  induction kvs with
  | nil => exact fun old _ h => (h.resolve_left List.not_mem_nil).2
  | cons kv' kvs ih =>
    intro old hnodup h
    obtain ⟨hnew, hnodup⟩ := List.nodup_cons.mp hnodup
    apply ih _ hnodup
    obtain hmem | ⟨hne, hold⟩ := h
    · obtain rfl | hmem := List.mem_cons.mp hmem
      · exact .inr ⟨fun kv' hkv' heq => hnew (List.mem_map.mpr ⟨kv', hkv', heq⟩), if_pos rfl⟩
      · exact .inl hmem
    · obtain ⟨hne', hne⟩ := List.forall_mem_cons.mp hne
      exact .inr ⟨hne, (if_neg hne').trans hold⟩

/-- A string is read as it was meant: the fields in `needed` have their values, and no
key is set that was not written. -/
def RoundTrips (needed fs : List Setting) (s : Text) : Prop :=
  ∃ kvs, parse s = some kvs ∧ (∀ f ∈ needed, valueOf kvs f.1 = some f.2) ∧ ∀ kv ∈ kvs, kv.1 ∈ fs.map Prod.fst

/-- **A string that is written field by field is read as it was meant** if and only if no
needed value has a quote, and none that is left bare has white space. -/
theorem Style.roundTrips_iff (q : Style) {needed fs : List Setting} (hkeys : ∀ f ∈ fs, IsKey f.1)
    (hnodup : (fs.map Prod.fst).Nodup) (hsub : needed ⊆ fs) (hne : ∀ f ∈ needed, q.quotes f.2 = true ∨ f.2 ≠ [])
    (hother : ∀ f ∈ fs, f ∈ needed ∨ q.Safe f.2) :
    RoundTrips needed fs (q.render fs) ↔ ∀ f ∈ needed, q.Safe f.2 := by
  constructor
  · intro ⟨kvs, hparse, hvalues, hwritten⟩
    have hread := parse_iff.mp hparse
    have hplain : ∀ kv ∈ kvs, 39 ∉ kv.1 := by
      intro kv hkv hquote
      obtain ⟨f, hf, hk⟩ := List.mem_map.mp (hwritten kv hkv)
      exact ((hkeys f hf).2 39 (by rwa [hk])).2.2.1 rfl
    have hcases : ∀ f ∈ fs, q.Safe f.2 ∨ 39 ∈ f.2 := by
      intro f hf
      obtain hneeded | hsafe := hother f hf
      · by_cases hquote : 39 ∈ f.2
        · exact .inr hquote
        · refine .inl ⟨hquote, ?_⟩
          by_cases hq : q.quotes f.2 = true
          · exact .inl hq
          · refine .inr ⟨(hne f hneeded).resolve_left hq, fun c hc => Bool.eq_false_iff.mpr fun hblank => ?_⟩
            exact q.bare_value_lost hkeys hread hplain (mem_of_valueOf (hvalues f hneeded))
              (Bool.eq_false_iff.mpr hq) hc hblank
      · exact .inl hsafe
    have hread' : Parses ([] ++ q.render fs) kvs := hread
    have hsafe := q.safe_of_parses hkeys hcases (by simp) hplain hread'
    exact fun f hf => hsafe f (hsub hf)
  · intro hsafe
    have hall : ∀ f ∈ fs, q.Safe f.2 := fun f hf => (hother f hf).elim (hsafe f) id
    have hread : Parses ([] ++ q.render fs) fs := q.parses_render hkeys hall (by simp) fun _ => rfl
    refine ⟨fs, parse_iff.mpr hread, ?_, ?_⟩
    · exact fun f hf => valueOf_of_mem hnodup (hsub hf)
    · exact fun kv hkv => List.mem_map_of_mem hkv

end ConnString
