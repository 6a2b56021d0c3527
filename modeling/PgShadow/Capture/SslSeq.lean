/-
# Sequence numbers of the synthetic packets

`nextSeq` of `pkg/capture/source_ebpf_ssl.go` gives every packet of a thread and
direction the number where the packet before it ended, as a TCP sender would:
1 plus the bytes of all earlier packets. To bound its maps it forgets, every
100000 calls, the entries not used in the last 500000 calls.

The age is an unsigned difference. Before call 500000 (and again after the
counter wraps) it is negative, and the purge forgets the entries in use: those
called since the counter was 0 (`stale_iff`). A sequence in use is continued
exactly up to the bytes forgotten in this way: `nextSeq_continuous_iff`,
`first_purge_restarts`.

Key definitions: `SeqCall`, `seqReturned`, `EarlyPurge`, `forgottenBytes`.
Key theorems: `seqReturned_eq`, `nextSeq_continuous_iff`.
-/
import Mathlib.Algebra.BigOperators.Group.Finset.Basic
import Mathlib.Algebra.Order.Group.Nat
import PgShadow.Capture.Ssl

namespace PgShadow

open Finset

/-- A call of `nextSeq` by a thread of the operating system. -/
structure SeqCall where
  pid : UInt32
  tid : UInt32
  direction : UInt8
  dataLen : UInt32
  pid_lt : pid.toNat < 2 ^ 31
  tid_lt : tid.toNat < 2 ^ 31
  direction_le : direction.toNat ≤ 1

/-- The thread and direction. -/
def SeqCall.key (c : SeqCall) : UInt32 × UInt32 × UInt8 := (c.pid, c.tid, c.direction)

/-- The key in the source's maps. -/
def SeqCall.mapKey (c : SeqCall) : UInt64 := seqKey c.pid c.tid c.direction

def SslSource.next (s : SslSource) (c : SeqCall) : SslSource × UInt32 :=
  s.nextSeq c.pid c.tid c.direction c.dataLen

/-- The source after the first `n` calls. -/
def seqState (calls : ℕ → SeqCall) : ℕ → SslSource
  | 0 => {}
  | n + 1 => ((seqState calls n).next (calls n)).1

/-- What call `j` returns. -/
def seqReturned (calls : ℕ → SeqCall) (j : ℕ) : UInt32 := ((seqState calls j).next (calls j)).2

/-- The bytes of the calls before `j` with the same key. -/
def bytesBefore (calls : ℕ → SeqCall) (j : ℕ) : ℕ :=
  ∑ i ∈ (range j).filter fun i => (calls i).key = (calls j).key, (calls i).dataLen.toNat

/-! ### Keys -/

/-- No bit of the key is lost. -/
theorem SeqCall.mapKey_toNat (c : SeqCall) :
    c.mapKey.toNat = (c.pid.toNat * 2 ^ 32 + c.tid.toNat) * 2 + c.direction.toNat := by
  have hp := c.pid_lt
  have ht := c.tid_lt
  have hd := c.direction_le
  have hword : (c.pid.toUInt64 <<< 32 ||| c.tid.toUInt64).toNat = c.pid.toNat * 2 ^ 32 + c.tid.toNat := by
    rw [UInt64.toNat_or, UInt64.toNat_shiftLeft, UInt32.toNat_toUInt64, UInt32.toNat_toUInt64]
    simp only [UInt64.reduceToNat, Nat.reduceMod]
    rw [Nat.mod_eq_of_lt (by rw [Nat.shiftLeft_eq]; omega), ← Nat.shiftLeft_add_eq_or_of_lt (by omega),
      Nat.shiftLeft_eq]
  rw [mapKey, seqKey, UInt64.toNat_or, UInt64.toNat_shiftLeft, hword, UInt8.toNat_toUInt64]
  simp only [UInt64.reduceToNat, Nat.reduceMod]
  rw [Nat.mod_eq_of_lt (by rw [Nat.shiftLeft_eq]; omega), ← Nat.shiftLeft_add_eq_or_of_lt (by omega),
    Nat.shiftLeft_eq, pow_one]

theorem SeqCall.mapKey_inj {c d : SeqCall} : c.mapKey = d.mapKey ↔ c.key = d.key := by
  have hc := c.tid_lt
  have hd := d.tid_lt
  have hc' := c.direction_le
  have hd' := d.direction_le
  rw [← UInt64.toNat_inj, mapKey_toNat, mapKey_toNat, key, key, Prod.mk.injEq, Prod.mk.injEq, ← UInt32.toNat_inj,
    ← UInt32.toNat_inj, ← UInt8.toNat_inj]
  omega

/-! ### What a purge forgets -/

/-- After call `t` the purge computes a negative age. -/
def EarlyPurge (t : ℕ) : Prop :=
  (t + 1) % 2 ^ 64 % 100000 = 0 ∧ 0 < (t + 1) % 2 ^ 64 ∧ (t + 1) % 2 ^ 64 < 500000

instance (t : ℕ) : Decidable (EarlyPurge t) := inferInstanceAs (Decidable (_ ∧ _ ∧ _))

/-- Unsigned ages: of the entries used in the last 500000 calls those are taken
for stale that were used since the counter was 0, if that is less than 500000
calls ago. -/
theorem stale_iff {i n : ℕ} (hi : i < n) (hage : n ≤ i + 500000) :
    UInt64.ofNat i < UInt64.ofNat n - 500000 ↔
      0 < n % 2 ^ 64 ∧ n % 2 ^ 64 < 500000 ∧ n ≤ i + n % 2 ^ 64 := by
  rw [UInt64.lt_iff_toNat_lt, UInt64.toNat_sub]
  simp only [UInt64.toNat_ofNat', UInt64.reduceToNat]
  omega

section Key

variable (calls : ℕ → SeqCall) (k : UInt32 × UInt32 × UInt8)

/-- The purge after call `t` forgets the key `k` although it was called within
the last 500000 calls: it was called since the counter was 0. -/
def Forgets (t : ℕ) : Prop :=
  EarlyPurge t ∧ ∃ i < t + 1, t + 1 ≤ i + (t + 1) % 2 ^ 64 ∧ (calls i).key = k

instance (t : ℕ) : Decidable (Forgets calls k t) := inferInstanceAs (Decidable (_ ∧ _))

/-- Call `i` of the key is forgotten before call `n`. -/
def Forgotten (n i : ℕ) : Prop := ∃ t < n, i ≤ t ∧ Forgets calls k t

instance (n i : ℕ) : Decidable (Forgotten calls k n i) := inferInstanceAs (Decidable (∃ t < n, _))

/-- The bytes of the calls of `k` before `n` that no purge forgot. -/
def liveBytes (n : ℕ) : ℕ :=
  ∑ i ∈ (range n).filter fun i => (calls i).key = k ∧ ¬ Forgotten calls k n i, (calls i).dataLen.toNat

/-- Call `i` is the last one of `k` before call `n`. -/
def LastCall (n i : ℕ) : Prop := i < n ∧ (calls i).key = k ∧ ∀ i', i < i' → i' < n → (calls i').key ≠ k

variable {calls k}

theorem forgotten_succ {n i : ℕ} (h : ¬ Forgets calls k n) : Forgotten calls k (n + 1) i ↔ Forgotten calls k n i := by
  constructor
  · rintro ⟨t, ht, hit, hf⟩
    have hne : t ≠ n := fun he => h (he ▸ hf)
    exact ⟨t, by omega, hit, hf⟩
  · rintro ⟨t, ht, hit, hf⟩
    exact ⟨t, by omega, hit, hf⟩

theorem not_forgotten_self (n : ℕ) : ¬ Forgotten calls k n n := fun ⟨_, ht, hit, _⟩ => absurd hit (by omega)

/-- A purge that forgets `k` leaves none of its bytes. -/
theorem liveBytes_of_forgets {n : ℕ} (h : Forgets calls k n) : liveBytes calls k (n + 1) = 0 := by
  rw [liveBytes, filter_false_of_mem, sum_empty]
  rintro i hi ⟨-, hlive⟩
  rw [mem_range] at hi
  exact hlive ⟨n, by omega, by omega, h⟩

theorem liveBytes_succ {n : ℕ} (h : ¬ Forgets calls k n) :
    liveBytes calls k (n + 1) =
      liveBytes calls k n + if (calls n).key = k then (calls n).dataLen.toNat else 0 := by
  have hself : ¬ Forgotten calls k n n := not_forgotten_self n
  rw [liveBytes, liveBytes, sum_filter, sum_filter, sum_range_succ]
  simp only [forgotten_succ h, hself, not_false_eq_true, and_true]

/-! ### The entry of a key -/

/-- The entry of the key at `mk`: what `b` bytes lead to and its last call, or
nothing if there are no bytes to remember. -/
def SeqEntry (calls : ℕ → SeqCall) (k : UInt32 × UInt32 × UInt8) (mk : UInt64) (n b : ℕ) (s : SslSource) : Prop :=
  s.seqPurgeCounter = UInt64.ofNat n ∧
    ((b = 0 ∧ s.seqNums mk = none ∧ s.seqLastSeen mk = none) ∨
      ∃ i, LastCall calls k n i ∧ s.seqLastSeen mk = some (UInt64.ofNat i) ∧
        s.seqNums mk = some (UInt32.ofNat (1 + b)))

theorem SeqEntry.returned {mk : UInt64} {n b : ℕ} {s : SslSource} (h : SeqEntry calls k mk n b s) :
    (s.seqNums mk).getD 1 = UInt32.ofNat (1 + b) := by
  rcases h.2 with ⟨rfl, hnone, -⟩ | ⟨i, -, -, hsome⟩
  · rw [hnone]; rfl
  · rw [hsome]; rfl

/-- The entry goes on with the call. -/
theorem SeqEntry.advance {mk : UInt64} {n b : ℕ} {s : SslSource} (h : SeqEntry calls k mk n b s)
    (hmk : (calls n).mapKey = mk ↔ (calls n).key = k) :
    SeqEntry calls k mk (n + 1) (b + if (calls n).key = k then (calls n).dataLen.toNat else 0)
      (s.advance (calls n).mapKey (calls n).dataLen) := by
  have hcounter : s.seqPurgeCounter + 1 = UInt64.ofNat (n + 1) := by rw [h.1, UInt64.ofNat_add]; rfl
  refine ⟨hcounter, ?_⟩
  by_cases hk : (calls n).key = k
  · refine Or.inr ⟨n, ⟨by omega, hk, fun i' h1 h2 => absurd h2 (by omega)⟩, ?_, ?_⟩
    · rw [SslSource.advance_seqLastSeen, hmk.2 hk, GoMap.set_self, h.1]
    · rw [SslSource.advance_seqNums, hmk.2 hk, GoMap.set_self, h.returned, if_pos hk, ← Nat.add_assoc,
        UInt32.ofNat_add (1 + b), UInt32.ofNat_toNat]
  · have hne : mk ≠ (calls n).mapKey := fun he => hk (hmk.1 he.symm)
    rw [if_neg hk, Nat.add_zero, SslSource.advance_seqNums, SslSource.advance_seqLastSeen, GoMap.set_of_ne _ _ hne,
      GoMap.set_of_ne _ _ hne]
    rcases h.2 with hnone | ⟨i, ⟨hi, hik, hlast⟩, hseen, hnum⟩
    · exact Or.inl hnone
    · refine Or.inr ⟨i, ⟨by omega, hik, fun i' h1 h2 => ?_⟩, hseen, hnum⟩
      rcases Nat.lt_or_ge i' n with hlt | hge
      · exact hlast i' h1 hlt
      · rwa [show i' = n by omega]

/-- The purge after a call forgets the key exactly if its last call is in reach
of an early purge. -/
theorem forgets_iff_of_last {n i : ℕ} (h : LastCall calls k (n + 1) i) :
    Forgets calls k n ↔ EarlyPurge n ∧ n + 1 ≤ i + (n + 1) % 2 ^ 64 := by
  obtain ⟨hi, hik, hlast⟩ := h
  refine and_congr_right fun _ => ⟨?_, fun hreach => ⟨i, hi, hreach, hik⟩⟩
  rintro ⟨i', hi', hreach, hk⟩
  have hle : i' ≤ i := by
    by_contra hlt
    exact hlast i' (by omega) hi' hk
  omega

theorem counter_mod (n : ℕ) : UInt64.ofNat n % 100000 = 0 ↔ n % 2 ^ 64 % 100000 = 0 := by
  rw [← UInt64.toNat_inj, UInt64.toNat_mod, UInt64.toNat_ofNat']
  rfl

/-- What is left of the entry after the purge, if the key was called within the
last 500000 calls. -/
theorem SeqEntry.purge {mk : UInt64} {n b : ℕ} {s : SslSource} (h : SeqEntry calls k mk (n + 1) b s)
    (hage : ∀ i, LastCall calls k (n + 1) i → n + 1 ≤ i + 500000) :
    SeqEntry calls k mk (n + 1) (if Forgets calls k n then 0 else b)
      (if s.seqPurgeCounter % 100000 = 0 then s.purgeStaleSeqs else s) := by
  obtain ⟨hcounter, hentry⟩ := h
  by_cases hpurge : s.seqPurgeCounter % 100000 = 0
  · rw [if_pos hpurge]
    refine ⟨hcounter, ?_⟩
    rw [SslSource.purgeStaleSeqs_seqNums, SslSource.purgeStaleSeqs_seqLastSeen]
    rcases hentry with ⟨rfl, hnum, hseen⟩ | ⟨i, hlast, hseen, hnum⟩
    · refine Or.inl ⟨ite_self 0, ?_, ?_⟩
      · rw [hnum, ite_self]
      · rw [hseen, ite_self]
    · have hstale : s.stale (s.seqPurgeCounter - 500000) mk = true ↔ Forgets calls k n := by
        rw [hcounter, counter_mod] at hpurge
        rw [forgets_iff_of_last hlast, SslSource.stale, hseen, hcounter, Option.any_some, decide_eq_true_iff,
          stale_iff hlast.1 (hage i hlast), EarlyPurge]
        tauto
      by_cases hf : Forgets calls k n
      · rw [if_pos hf, if_pos (hstale.2 hf), if_pos (hstale.2 hf)]
        exact Or.inl ⟨rfl, rfl, rfl⟩
      · have hkeep : ¬ s.stale (s.seqPurgeCounter - 500000) mk = true := fun he => hf (hstale.1 he)
        rw [if_neg hf, if_neg hkeep, if_neg hkeep]
        exact Or.inr ⟨i, hlast, hseen, hnum⟩
  · rw [if_neg hpurge]
    rw [hcounter, counter_mod] at hpurge
    rw [if_neg fun hf => hpurge hf.1.1]
    exact ⟨hcounter, hentry⟩

/-- One call keeps the entry of `k`. -/
theorem SeqEntry.next {mk : UInt64} {n : ℕ} {s : SslSource} (h : SeqEntry calls k mk n (liveBytes calls k n) s)
    (hmk : (calls n).mapKey = mk ↔ (calls n).key = k)
    (hage : ∀ i, LastCall calls k (n + 1) i → n + 1 ≤ i + 500000) :
    SeqEntry calls k mk (n + 1) (liveBytes calls k (n + 1)) (s.next (calls n)).1 := by
  have hbytes : liveBytes calls k (n + 1) = if Forgets calls k n then 0
      else liveBytes calls k n + if (calls n).key = k then (calls n).dataLen.toNat else 0 := by
    by_cases hf : Forgets calls k n
    · rw [if_pos hf, liveBytes_of_forgets hf]
    · rw [if_neg hf, liveBytes_succ hf]
  rw [hbytes]
  exact (h.advance hmk).purge hage

end Key

/-! ### Runs -/

variable {calls : ℕ → SeqCall} {j : ℕ}

/-- Consecutive calls of the key of call `j` are at most 500000 calls apart, up
to `j`. -/
def Recurrent (calls : ℕ → SeqCall) (j : ℕ) : Prop :=
  ∀ i n, n ≤ j → (calls n).key = (calls j).key → LastCall calls (calls j).key n i → n ≤ i + 500000

/-- The last call of a key that will be called again is never too old. -/
theorem Recurrent.age (h : Recurrent calls j) : ∀ (d : ℕ) {n i : ℕ}, n + d = j →
    LastCall calls (calls j).key n i → n ≤ i + 500000
  | 0, n, i, hn, hlast => by
    obtain rfl : n = j := hn
    exact h i n (Nat.le_refl n) rfl hlast
  | d + 1, n, i, hn, hlast => by
    by_cases hk : (calls n).key = (calls j).key
    · exact h i n (by omega) hk hlast
    · obtain ⟨hi, hik, hnone⟩ := hlast
      have hlast' : LastCall calls (calls j).key (n + 1) i := by
        refine ⟨by omega, hik, fun i' h1 h2 => ?_⟩
        rcases Nat.lt_or_ge i' n with hlt | hge
        · exact hnone i' h1 hlt
        · rwa [show i' = n by omega]
      have hage := h.age d (by omega) hlast'
      omega

theorem entry_run (h : Recurrent calls j) : ∀ n, n ≤ j →
    SeqEntry calls (calls j).key (calls j).mapKey n (liveBytes calls (calls j).key n) (seqState calls n)
  | 0, _ => ⟨rfl, Or.inl ⟨rfl, rfl, rfl⟩⟩
  | n + 1, hn => (entry_run h n (by omega)).next SeqCall.mapKey_inj fun _ hi => h.age (j - (n + 1)) (by omega) hi

/-- **What a call returns**: 1 plus the bytes since its key was last forgotten. -/
theorem seqReturned_eq (h : Recurrent calls j) :
    seqReturned calls j = UInt32.ofNat (1 + liveBytes calls (calls j).key j) :=
  (entry_run h j (Nat.le_refl j)).returned

/-- The bytes of the key of call `j` that a purge forgot while they were in use. -/
def forgottenBytes (calls : ℕ → SeqCall) (j : ℕ) : ℕ :=
  ∑ i ∈ (range j).filter fun i => (calls i).key = (calls j).key ∧ Forgotten calls (calls j).key j i,
    (calls i).dataLen.toNat

theorem bytesBefore_eq (calls : ℕ → SeqCall) (j : ℕ) :
    bytesBefore calls j = liveBytes calls (calls j).key j + forgottenBytes calls j := by
  rw [bytesBefore, liveBytes, forgottenBytes, ← filter_filter, ← filter_filter, Nat.add_comm]
  exact (sum_filter_add_sum_filter_not _ _ _).symm

/-- **Sequence numbers are continuous up to what the purge forgets.** Call `j`
returns 1 plus all the bytes before it, modulo 2³², exactly if the bytes of its
key that an early purge forgot add up to a multiple of 2³². -/
theorem nextSeq_continuous_iff (calls : ℕ → SeqCall) (j : ℕ) (h : Recurrent calls j) :
    (seqReturned calls j).toNat = (1 + bytesBefore calls j) % 2 ^ 32 ↔ forgottenBytes calls j % 2 ^ 32 = 0 := by
  rw [seqReturned_eq h, bytesBefore_eq, UInt32.toNat_ofNat']
  omega

/-- A thread that reads one byte after the other. -/
def oneThread : ℕ → SeqCall := fun _ => ⟨1, 1, 0, 1, by decide, by decide, by decide⟩

theorem oneThread_recurrent (j : ℕ) : Recurrent oneThread j := by
  rintro i n - - ⟨hi, -, hnone⟩
  by_contra hlt
  exact hnone (i + 1) (by omega) (by omega) rfl

theorem oneThread_third_call : (seqReturned oneThread 2).toNat = 3 :=
  (nextSeq_continuous_iff oneThread 2 (oneThread_recurrent 2)).2 (by decide +kernel)

theorem oneThread_bytesBefore (j : ℕ) : bytesBefore oneThread j = j := by
  simp [bytesBefore, oneThread]

/-- The thread's call 100000 starts again at 1, in the middle of its stream. -/
theorem first_purge_restarts :
    Recurrent oneThread 100000 ∧ (1 + bytesBefore oneThread 100000) % 2 ^ 32 = 100001 ∧
      (seqReturned oneThread 100000).toNat = 1 := by
  have hforgets : Forgets oneThread (1, 1, 0) 99999 :=
    ⟨by decide, 99999, by decide, by decide, rfl⟩
  have hlive : liveBytes oneThread (1, 1, 0) 100000 = 0 := liveBytes_of_forgets hforgets
  refine ⟨oneThread_recurrent _, by rw [oneThread_bytesBefore]; decide, ?_⟩
  have hkey : (oneThread 100000).key = (1, 1, 0) := rfl
  rw [seqReturned_eq (oneThread_recurrent _), hkey, hlive]
  rfl

end PgShadow
