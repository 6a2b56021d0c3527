/-
# Reading fields at a cursor

A scanner reads a byte buffer at a cursor, field by field. It can refuse what
it finds, and it can reach outside the buffer; the two failures are kept apart,
since only the first is an answer of the reader.

`Reads p bs x` says that `p` reads the bytes `bs` as `x` wherever they stand in
a buffer, and moves the cursor past them. The laws below give it for a compound
scanner from its parts, so that a writer and a reader are compared field by
field. Words are little-endian (`LittleEndian`). `Yields p Q` says that `Q` holds of
whatever `p` reads, from any buffer.

For buffers that no writer made there are three more judgements, with laws of the
same form: `Safe n p`, that `p` stays inside the buffer if `n` bytes are left;
`Takes p L`, that what `p` accepts has the layout `L`; and `Passes p bs X`, that `p`
gets past `bs` with a value in `X` unless it reaches outside.

Key definitions: `Scanner`, `Reads`, `Yields`, `Safe`, `Takes`, `Passes`, `LittleEndian.toBytes`.
Key theorems: `Reads.bind`, `Reads.need`, `Reads.times`, `reads_word`, `Yields.bind`, `Safe.bind`, `Takes.bind`,
`Passes.bind`.
-/
import Mathlib.Data.List.Basic
import Mathlib.Algebra.Order.Group.Nat

namespace LittleEndian

/-- The low `w` bytes of `n`, least significant first. -/
def toBytes : ℕ → ℕ → List UInt8
  | 0, _ => []
  | w + 1, n => UInt8.ofNat n :: toBytes w (n / 256)

/-- The number a byte list spells, least significant byte first. -/
def ofBytes : List UInt8 → ℕ
  | [] => 0
  | b :: bs => b.toNat + 256 * ofBytes bs

@[simp] theorem length_toBytes : ∀ w n, (toBytes w n).length = w
  | 0, _ => rfl
  | w + 1, n => by rw [toBytes, List.length_cons, length_toBytes w]

/-- What is read back is the number modulo the width. -/
theorem ofBytes_toBytes : ∀ w n, ofBytes (toBytes w n) = n % 256 ^ w
  | 0, n => by rw [toBytes, ofBytes, pow_zero, Nat.mod_one]
  | w + 1, n => by
    rw [toBytes, ofBytes, ofBytes_toBytes w, pow_succ, Nat.mul_comm (256 ^ w), Nat.mod_mul,
      UInt8.toNat_ofNat']

end LittleEndian

namespace Scan

/-- How a scan fails: by the scanner's own refusal, or by an access outside the
buffer. -/
inductive Fault (ε : Type)
  | refused (e : ε)
  | outOfRange
deriving DecidableEq

/-- A scanner of a byte buffer, the state being the cursor. -/
abbrev Scanner (ε α : Type) := ReaderT (List UInt8) (StateT ℕ (Except (Fault ε))) α

variable {ε α β : Type}

/-- Refuse unless `n` more bytes are there. -/
def need (n : ℕ) (e : ℕ → ℕ → ε) : Scanner ε Unit := fun buf off =>
  if off + n ≤ buf.length then .ok ((), off) else .error (.refused (e off (buf.length - off)))

/-- The `n` bytes at the cursor, which stays. -/
def look (n : ℕ) : Scanner ε (List UInt8) := fun buf off =>
  if off + n ≤ buf.length then .ok ((buf.drop off).take n, off) else .error .outOfRange

/-- Move the cursor. -/
def skip (n : ℕ) : Scanner ε Unit := fun _ off => .ok ((), off + n)

/-- The `n` bytes at the cursor, which moves past them. -/
def take (n : ℕ) : Scanner ε (List UInt8) := do
  let bs ← look n
  skip n
  pure bs

/-- A little-endian word of `w` bytes. -/
def word (w : ℕ) : Scanner ε ℕ := do
  let bs ← take w
  pure (LittleEndian.ofBytes bs)

/-- `n` times the same scanner. -/
def times (p : Scanner ε α) : ℕ → Scanner ε (List α)
  | 0 => pure []
  | n + 1 => do
    let x ← p
    let xs ← times p n
    pure (x :: xs)

/-- Scan a buffer from its start. -/
def run (p : Scanner ε α) (buf : List UInt8) : Except (Fault ε) α := (p buf 0).map Prod.fst

/-- Wherever the bytes `bs` stand, `p` reads them as `x` and moves past them. -/
def Reads (p : Scanner ε α) (bs : List UInt8) (x : α) : Prop :=
  ∀ pre post, p (pre ++ bs ++ post) pre.length = .ok (x, pre.length + bs.length)

theorem bind_ok {p : Scanner ε α} {k : α → Scanner ε β} {buf : List UInt8} {off j : ℕ} {x : α}
    (h : p buf off = .ok (x, j)) : (p >>= k) buf off = k x buf j := by
  show Except.bind (p buf off) _ = _
  rw [h]
  rfl

theorem Reads.pure (x : α) : Reads (pure x : Scanner ε α) [] x := fun _ _ => rfl

/-- **A scanner after another** reads the bytes of both. -/
theorem Reads.bind {p : Scanner ε α} {k : α → Scanner ε β} {bs cs : List UInt8} {x : α} {y : β}
    (hp : Reads p bs x) (hk : Reads (k x) cs y) : Reads (p >>= k) (bs ++ cs) y := by
  intro pre post
  have h1 := hp pre (cs ++ post)
  have h2 := hk (pre ++ bs) post
  rw [List.length_append] at h2
  rw [← List.append_assoc pre, List.append_assoc (pre ++ bs), bind_ok h1, ← List.append_assoc (pre ++ bs),
    h2, List.length_append, Nat.add_assoc]

/-- The last field: nothing but a pure value follows. -/
theorem Reads.map {p : Scanner ε α} {bs : List UInt8} {x : α} (hp : Reads p bs x) (f : α → β) :
    Reads (p >>= fun a => Pure.pure (f a)) bs (f x) := by
  have h := hp.bind (k := fun a => Pure.pure (f a)) (Reads.pure (f x))
  rwa [List.append_nil] at h

theorem need_ok {n : ℕ} (e : ℕ → ℕ → ε) {bs : List UInt8} (hn : n ≤ bs.length) (pre post : List UInt8) :
    need n e (pre ++ bs ++ post) pre.length = .ok ((), pre.length) := by
  apply if_pos
  simp only [List.length_append]
  omega

/-- A bounds check passes in front of a scanner that reads that much. -/
theorem Reads.need {p : Scanner ε α} {bs : List UInt8} {x : α} {n : ℕ} (e : ℕ → ℕ → ε)
    (hn : n ≤ bs.length) (hp : Reads p bs x) : Reads (need n e >>= fun _ => p) bs x := by
  intro pre post
  rw [bind_ok (need_ok e hn pre post), hp]

theorem look_append (pre bs post : List UInt8) :
    (look bs.length : Scanner ε _) (pre ++ bs ++ post) pre.length = .ok (bs, pre.length) := by
  have h : pre.length + bs.length ≤ (pre ++ bs ++ post).length := by
    simp only [List.length_append]
    omega
  rw [look, if_pos h, List.append_assoc, List.drop_left, List.take_left]

theorem reads_take {bs : List UInt8} {n : ℕ} (hn : bs.length = n) : Reads (take n : Scanner ε _) bs bs := by
  subst hn
  intro pre post
  rw [take, bind_ok (look_append pre bs post)]
  rfl

/-- Any bytes of the right number are a word. -/
theorem reads_word_of_length {bs : List UInt8} {w : ℕ} (h : bs.length = w) :
    Reads (word w : Scanner ε ℕ) bs (LittleEndian.ofBytes bs) := (reads_take h).map _

theorem reads_word (w n : ℕ) :
    Reads (word w : Scanner ε ℕ) (LittleEndian.toBytes w n) (n % 256 ^ w) := by
  rw [← LittleEndian.ofBytes_toBytes]
  exact reads_word_of_length (LittleEndian.length_toBytes w n)

/-- A word that fits reads as itself. -/
theorem reads_word_of_lt {w n : ℕ} (h : n < 256 ^ w) :
    Reads (word w : Scanner ε ℕ) (LittleEndian.toBytes w n) n := by
  have := reads_word (ε := ε) w n
  rwa [Nat.mod_eq_of_lt h] at this

/-- **Repeated fields** are read one by one. -/
theorem Reads.times {p : Scanner ε β} {enc : α → List UInt8} {f : α → β} :
    ∀ {xs : List α}, (∀ x ∈ xs, Reads p (enc x) (f x)) → Reads (times p xs.length) (xs.flatMap enc) (xs.map f)
  | [], _ => Reads.pure []
  | x :: xs, h => by
    have hx := h x List.mem_cons_self
    have hxs := Reads.times fun y hy => h y (List.mem_cons_of_mem x hy)
    exact hx.bind (hxs.map _)

/-- Whatever is read satisfies `Q`. -/
def Yields (p : Scanner ε α) (Q : α → Prop) : Prop := ∀ buf off x off', p buf off = .ok (x, off') → Q x

theorem Yields.pure {Q : α → Prop} {x : α} (hx : Q x) : Yields (pure x : Scanner ε α) Q := by
  intro buf off y off' h
  cases h
  exact hx

/-- What a scanner yields is decided by the scanner it goes on with. -/
theorem Yields.bind {p : Scanner ε α} {k : α → Scanner ε β} {Q : β → Prop} (h : ∀ x, Yields (k x) Q) :
    Yields (p >>= k) Q := by
  intro buf off y off' hy
  rcases hp : p buf off with e | ⟨x, off₁⟩
  · have herr : (p >>= k) buf off = .error e := by
      show Except.bind (p buf off) _ = _
      rw [hp]
      rfl
    rw [herr] at hy
    cases hy
  · rw [bind_ok hp] at hy
    exact h x buf off₁ y off' hy

theorem Yields.run {p : Scanner ε α} {Q : α → Prop} (h : Yields p Q) {buf : List UInt8} {x : α}
    (hx : Scan.run p buf = .ok x) : Q x := by
  rw [Scan.run] at hx
  rcases hp : p buf 0 with e | ⟨y, off⟩
  · rw [hp] at hx
    cases hx
  · rw [hp] at hx
    cases hx
    exact h buf 0 y off hp

/-- A whole buffer is read by a scanner of its front. -/
theorem Reads.run {p : Scanner ε α} {bs : List UInt8} {x : α} (h : Reads p bs x) (post : List UInt8) :
    Scan.run p (bs ++ post) = .ok x := by
  have := h [] post
  rw [List.nil_append] at this
  rw [Scan.run, List.length_nil] at *
  rw [this]
  rfl

theorem bind_error {p : Scanner ε α} {k : α → Scanner ε β} {buf : List UInt8} {off : ℕ} {e : Fault ε}
    (h : p buf off = .error e) : (p >>= k) buf off = .error e := by
  show Except.bind (p buf off) _ = _
  rw [h]
  rfl

/-- A sequence reaches outside in its first part or, behind it, in its second. -/
theorem bind_outOfRange_iff {p : Scanner ε α} {k : α → Scanner ε β} {buf : List UInt8} {off : ℕ} :
    (p >>= k) buf off = .error .outOfRange ↔
      p buf off = .error .outOfRange ∨ ∃ x off', p buf off = .ok (x, off') ∧ k x buf off' = .error .outOfRange := by
  rcases h : p buf off with e | ⟨x, off'⟩
  · rw [bind_error h]
    constructor
    · rintro ⟨⟩
      exact Or.inl rfl
    · rintro (⟨⟨⟩⟩ | ⟨_, _, ⟨⟩, -⟩)
      rfl
  · rw [bind_ok h]
    constructor
    · exact fun hk => Or.inr ⟨x, off', rfl, hk⟩
    · rintro (he | ⟨_, _, hok, hk⟩)
      · cases he
      · cases hok
        exact hk

/-! ### Staying inside -/

/-- With `n` bytes left, `p` does not reach outside the buffer. -/
def Safe (n : ℕ) (p : Scanner ε α) : Prop := ∀ buf off, off + n ≤ buf.length → p buf off ≠ .error .outOfRange

/-- `p` does not reach outside, whatever is left. -/
def Inside (p : Scanner ε α) : Prop := ∀ buf off, p buf off ≠ .error .outOfRange

theorem Inside.safe {p : Scanner ε α} (h : Inside p) (n : ℕ) : Safe n p := fun buf off _ => h buf off

theorem Inside.pure (x : α) : Inside (pure x : Scanner ε α) := fun _ _ h => by cases h

theorem Inside.bind {p : Scanner ε α} {k : α → Scanner ε β} (hp : Inside p) (hk : ∀ x, Inside (k x)) :
    Inside (p >>= k) := by
  intro buf off
  rcases h : p buf off with e | ⟨x, off'⟩
  · rw [bind_error h]
    rintro ⟨⟩
    exact hp buf off h
  · rw [bind_ok h]
    exact hk x buf off'

/-- A bounds check covers what follows it. -/
theorem Safe.need {n : ℕ} {p : Scanner ε α} (e : ℕ → ℕ → ε) (hp : Safe n p) :
    Inside (need n e >>= fun _ => p) := by
  intro buf off
  by_cases h : off + n ≤ buf.length
  · rw [bind_ok (x := ()) (j := off) (if_pos h)]
    exact hp buf off h
  · rw [bind_error (if_neg h)]
    nofun

theorem take_eq {n : ℕ} {buf : List UInt8} {off : ℕ} (h : off + n ≤ buf.length) :
    (take n : Scanner ε _) buf off = .ok ((buf.drop off).take n, off + n) := by
  rw [take, bind_ok (x := (buf.drop off).take n) (j := off) (if_pos h)]
  rfl

/-- Bytes that were checked for are taken, and fewer are left. -/
theorem Safe.take {n m : ℕ} {k : List UInt8 → Scanner ε α} (hk : ∀ bs, Safe m (k bs)) :
    Safe (n + m) (take n >>= k) := by
  intro buf off h
  rw [bind_ok (take_eq (by omega))]
  exact hk _ buf (off + n) (by omega)

theorem safe_take (n : ℕ) : Safe n (take n : Scanner ε _) := by
  intro buf off h
  rw [take_eq h]
  nofun

theorem Safe.word {w m : ℕ} {k : ℕ → Scanner ε α} (hk : ∀ n, Safe m (k n)) : Safe (w + m) (word w >>= k) := by
  intro buf off h
  have hw : (Scan.word w : Scanner ε ℕ) buf off =
      .ok (LittleEndian.ofBytes ((buf.drop off).take w), off + w) := by
    rw [Scan.word, bind_ok (take_eq (by omega))]
    rfl
  rw [bind_ok hw]
  exact hk _ buf (off + w) (by omega)

theorem Inside.times {p : Scanner ε α} (hp : Inside p) : ∀ n, Inside (times p n)
  | 0 => .pure []
  | n + 1 => hp.bind fun x => (Inside.times hp n).bind fun xs => .pure (x :: xs)

/-! ### The layout of what is accepted -/

/-- What `p` reads as `x` is laid out as `L` says, and the cursor moves past it. -/
def Takes (p : Scanner ε α) (L : List UInt8 → α → Prop) : Prop :=
  ∀ buf off x off', p buf off = .ok (x, off') →
    ∃ bs rest, buf.drop off = bs ++ rest ∧ off' = off + bs.length ∧ L bs x

theorem Takes.pure (x : α) : Takes (pure x : Scanner ε α) fun bs y => bs = [] ∧ y = x := by
  intro buf off y off' h
  cases h
  exact ⟨[], buf.drop off, rfl, rfl, rfl, rfl⟩

/-- **One layout after another.** -/
theorem Takes.bind {p : Scanner ε α} {k : α → Scanner ε β} {L : List UInt8 → α → Prop}
    {M : α → List UInt8 → β → Prop} (hp : Takes p L) (hk : ∀ x, Takes (k x) (M x)) :
    Takes (p >>= k) fun bs y => ∃ x b c, bs = b ++ c ∧ L b x ∧ M x c y := by
  intro buf off y off' hy
  rcases h : p buf off with e | ⟨x, off₁⟩
  · rw [bind_error h] at hy
    cases hy
  · rw [bind_ok h] at hy
    obtain ⟨b, rest, hb, rfl, hL⟩ := hp buf off x off₁ h
    obtain ⟨c, rest', hc, rfl, hM⟩ := hk x buf _ y off' hy
    refine ⟨b ++ c, rest', ?_, by rw [List.length_append, Nat.add_assoc], x, b, c, rfl, hL, hM⟩
    rw [← List.drop_drop, hb, List.drop_left] at hc
    rw [hb, hc, List.append_assoc]

theorem Takes.imp {p : Scanner ε α} {L M : List UInt8 → α → Prop} (hp : Takes p L) (h : ∀ bs x, L bs x → M bs x) :
    Takes p M := by
  intro buf off x off' hx
  obtain ⟨bs, rest, h1, h2, h3⟩ := hp buf off x off' hx
  exact ⟨bs, rest, h1, h2, h bs x h3⟩

/-- The same where the layouts do not depend on the values. -/
theorem Takes.followed {p : Scanner ε α} {k : α → Scanner ε β} {L M : List UInt8 → Prop} (hp : Takes p fun bs _ => L bs)
    (hk : ∀ x, Takes (k x) fun bs _ => M bs) : Takes (p >>= k) fun bs _ => ∃ b c, bs = b ++ c ∧ L b ∧ M c := by
  refine (hp.bind hk).imp ?_
  intro bs y ⟨_, h⟩
  exact h

theorem Takes.need {n : ℕ} {p : Scanner ε α} {L : List UInt8 → α → Prop} (e : ℕ → ℕ → ε) (hp : Takes p L) :
    Takes (need n e >>= fun _ => p) L := by
  intro buf off x off' hx
  by_cases h : off + n ≤ buf.length
  · rw [bind_ok (x := ()) (j := off) (if_pos h)] at hx
    exact hp buf off x off' hx
  · rw [bind_error (if_neg h)] at hx
    cases hx

theorem takes_take (n : ℕ) : Takes (take n : Scanner ε _) fun bs x => bs.length = n ∧ x = bs := by
  intro buf off x off' hx
  by_cases h : off + n ≤ buf.length
  · rw [take_eq h] at hx
    cases hx
    have hlen : ((buf.drop off).take n).length = n := by
      rw [List.length_take, List.length_drop]
      omega
    exact ⟨_, (buf.drop off).drop n, (List.take_append_drop n _).symm, by rw [hlen], hlen, rfl⟩
  · rw [take, bind_error (if_neg h)] at hx
    cases hx

theorem takes_word (w : ℕ) :
    Takes (word w : Scanner ε ℕ) fun bs n => bs.length = w ∧ n = LittleEndian.ofBytes bs := by
  refine ((takes_take w).bind fun bs => Takes.pure (LittleEndian.ofBytes bs)).imp ?_
  rintro _ _ ⟨bs, b, c, rfl, ⟨hlen, rfl⟩, rfl, rfl⟩
  rw [List.append_nil]
  exact ⟨hlen, rfl⟩

/-- Repeated fields stand one after another. -/
theorem Takes.times {p : Scanner ε α} {L : List UInt8 → α → Prop} (hp : Takes p L) :
    ∀ n, Takes (times p n) fun bs xs => ∃ parts : List (List UInt8), parts.length = n ∧ bs = parts.flatten ∧
      List.Forall₂ L parts xs
  | 0 => (Takes.pure []).imp fun bs xs h => ⟨[], rfl, h.1, h.2 ▸ .nil⟩
  | n + 1 => by
    refine (hp.bind fun x => (Takes.times hp n).bind fun xs => Takes.pure (x :: xs)).imp ?_
    rintro _ _ ⟨x, b, _, rfl, hb, xs, _, _, rfl, ⟨parts, hlen, rfl, hparts⟩, rfl, rfl⟩
    exact ⟨b :: parts, congrArg (· + 1) hlen, by rw [List.append_nil, List.flatten_cons], .cons hb hparts⟩

/-! ### Getting past a layout -/

/-- `p` gets past `bs` with a value in `X`, unless it reaches outside the buffer. -/
def Passes (p : Scanner ε α) (bs : List UInt8) (X : α → Prop) : Prop :=
  ∀ pre post, p (pre ++ bs ++ post) pre.length = .error .outOfRange ∨
    ∃ x, X x ∧ p (pre ++ bs ++ post) pre.length = .ok (x, pre.length + bs.length)

theorem Reads.passes {p : Scanner ε α} {bs : List UInt8} {x : α} {X : α → Prop} (h : Reads p bs x) (hx : X x) :
    Passes p bs X := fun pre post => Or.inr ⟨x, hx, h pre post⟩

theorem Passes.bind {p : Scanner ε α} {k : α → Scanner ε β} {bs cs : List UInt8} {X : α → Prop} {Y : β → Prop}
    (hp : Passes p bs X) (hk : ∀ x, X x → Passes (k x) cs Y) : Passes (p >>= k) (bs ++ cs) Y := by
  intro pre post
  rw [← List.append_assoc pre, List.append_assoc (pre ++ bs)]
  rcases hp pre (cs ++ post) with h | ⟨x, hx, h⟩
  · exact Or.inl (bind_error h)
  · have h2 := hk x hx (pre ++ bs) post
    rw [List.length_append] at h2
    rw [bind_ok h, ← List.append_assoc (pre ++ bs), List.length_append, ← Nat.add_assoc]
    exact h2

/-- The last field: nothing but a pure value follows. -/
theorem Passes.map {p : Scanner ε α} {bs : List UInt8} {X : α → Prop} (hp : Passes p bs X) (f : α → β) :
    Passes (p >>= fun a => Pure.pure (f a)) bs fun _ => True := by
  have h := hp.bind (k := fun a => Pure.pure (f a)) (Y := fun _ => True) fun x _ => (Reads.pure (f x)).passes trivial
  rwa [List.append_nil] at h

theorem Passes.need {n : ℕ} {p : Scanner ε α} {bs : List UInt8} {X : α → Prop} (e : ℕ → ℕ → ε)
    (hn : n ≤ bs.length) (hp : Passes p bs X) : Passes (need n e >>= fun _ => p) bs X := by
  intro pre post
  rw [bind_ok (need_ok e hn pre post)]
  exact hp pre post

theorem Passes.times {p : Scanner ε α} : ∀ {parts : List (List UInt8)},
    (∀ bs ∈ parts, Passes p bs fun _ => True) → Passes (times p parts.length) parts.flatten fun _ => True
  | [], _ => (Reads.pure []).passes trivial
  | bs :: parts, h => by
    have hrest := Passes.times fun cs hcs => h cs (List.mem_cons_of_mem bs hcs)
    exact (h bs List.mem_cons_self).bind fun x _ => hrest.map (x :: ·)

end Scan
