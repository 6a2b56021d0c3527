/-
# What the COPY tracker holds

The tracker of `pkg/protocol/copybuffer.go` against the calls made to it. For each
connection the calls leave a COPY open or not (`follow`): its statement and all
payloads since. The tracker holds that COPY while its payloads fit the limit, and a
mark in place of them afterwards (`Tracks`); one call keeps this (`Tracks.call`), so
every run does, whatever the other connections do.

`copy_exact` reads it off a history: `Done` returns the statement of the last
unfinished `Start` with the payloads since then, if they fit.

Key definitions: `CopyCall`, `Unfinished`, `follow`, `Tracks`.
Key theorems: `Tracks.call`, `follow_eq_some_iff`, `copy_exact`.
-/
import Mathlib.Algebra.BigOperators.Group.List.Basic
import PgShadow.Protocol.Collaborators

namespace PgShadow

inductive CopyCall
  | start (conn : ConnID) (sql : Bytes)
  | data (conn : ConnID) (payload : Bytes)
  | done (conn : ConnID)
  | fail (conn : ConnID)
  | discard (conn : ConnID)
deriving DecidableEq

def CopyCall.conn : CopyCall → ConnID
  | .start conn _ | .data conn _ | .done conn | .fail conn | .discard conn => conn

/-- The call on the tracker. -/
def CopyTracker.call (t : CopyTracker) : CopyCall → CopyTracker
  | .start conn sql => t.start conn sql
  | .data conn payload => t.data conn payload
  | .done conn => (t.done conn).1
  | .fail conn => t.fail conn
  | .discard conn => t.discard conn

def CopyTracker.run (t : CopyTracker) (calls : List CopyCall) : CopyTracker := calls.foldl call t

/-- The bytes of some payloads. -/
def totalBytes (payloads : List Bytes) : ℕ := (payloads.map List.length).sum

/-- The bytes buffered for a connection. -/
def CopyTracker.buffered (t : CopyTracker) (c : ConnID) : ℕ := ((t.active c).map fun buf => totalBytes buf.data).getD 0

/-! ### Histories -/

section History

variable (c : ConnID)

/-- The call ends the COPY of the connection: it finishes, drops or supersedes it. -/
def CopyCall.ends : CopyCall → Bool
  | .start conn _ | .done conn | .fail conn | .discard conn => conn = c
  | .data _ _ => false

/-- The payload of a `Data` call for the connection. -/
def CopyCall.payload : CopyCall → Option Bytes
  | .data conn payload => if conn = c then some payload else none
  | _ => none

/-- The last call that touched the COPY of the connection was a `Start` of `sql`, and
`since` came after it. -/
def Unfinished (calls : List CopyCall) (sql : Bytes) (since : List CopyCall) : Prop :=
  (∃ before, calls = before ++ .start c sql :: since) ∧ ∀ call ∈ since, call.ends c = false

/-- What a call leaves open of the COPY it ends. -/
def CopyCall.opens : CopyCall → Option CopyBuffer
  | .start _ sql => some ⟨sql, []⟩
  | _ => none

/-- The COPY of the connection after one more call, with all its payloads. -/
def follow (cur : Option CopyBuffer) (call : CopyCall) : Option CopyBuffer :=
  if call.ends c then call.opens else cur.map fun buf => { buf with data := buf.data ++ (call.payload c).toList }

variable {c}

/-- A call for another connection leaves the COPY as it is. -/
theorem follow_of_ne {call : CopyCall} (h : c ≠ call.conn) (cur : Option CopyBuffer) : follow c cur call = cur := by
  have hne : call.conn ≠ c := Ne.symm h
  unfold follow
  cases call <;> simp_all [CopyCall.ends, CopyCall.payload, CopyCall.conn]

theorem CopyCall.ends_opens_iff {call : CopyCall} {buf : CopyBuffer} :
    call.ends c = true ∧ call.opens = some buf ↔ call = .start c buf.sql ∧ buf.data = [] := by
  constructor
  · intro ⟨hends, hopens⟩
    cases call with
    | start conn sql =>
      obtain rfl := of_decide_eq_true hends
      obtain rfl := Option.some.inj hopens
      exact ⟨rfl, rfl⟩
    | _ => cases hopens
  · intro ⟨hcall, hdata⟩
    obtain ⟨sql, data⟩ := buf
    dsimp only at hcall hdata
    rw [hcall, hdata]
    exact ⟨decide_eq_true rfl, rfl⟩

theorem unfinished_cons {call : CopyCall} {calls since : List CopyCall} {sql : Bytes} :
    Unfinished c (call :: calls) sql since ↔
      Unfinished c calls sql since ∨
        (call = .start c sql ∧ since = calls ∧ ∀ call ∈ calls, call.ends c = false) := by
  constructor
  · intro ⟨⟨before, hcalls⟩, hsince⟩
    obtain _ | ⟨first, before⟩ := before
    · obtain ⟨rfl, rfl⟩ := List.cons.inj hcalls
      exact .inr ⟨rfl, rfl, hsince⟩
    · exact .inl ⟨⟨before, (List.cons.inj hcalls).2⟩, hsince⟩
  · intro h
    obtain ⟨⟨before, rfl⟩, hsince⟩ | ⟨rfl, rfl, hsince⟩ := h
    · exact ⟨⟨call :: before, rfl⟩, hsince⟩
    · exact ⟨⟨[], rfl⟩, hsince⟩

/-- The COPY that is open after some calls: that of the last `Start`, or the one open
before them. -/
theorem follow_eq_some_iff {buf : CopyBuffer} : ∀ {calls : List CopyCall} {cur : Option CopyBuffer},
    calls.foldl (follow c) cur = some buf ↔
      (∃ since, Unfinished c calls buf.sql since ∧ buf.data = since.filterMap (·.payload c)) ∨
        ((∀ call ∈ calls, call.ends c = false) ∧
          ∃ data, cur = some ⟨buf.sql, data⟩ ∧ buf.data = data ++ calls.filterMap (·.payload c))
  | [], cur => by
    constructor
    · intro h
      exact .inr ⟨fun _ hmem => absurd hmem List.not_mem_nil, buf.data, h, (List.append_nil _).symm⟩
    · intro h
      obtain ⟨since, ⟨⟨before, hnil⟩, -⟩, -⟩ | ⟨-, data, hcur, hdata⟩ := h
      · cases before <;> cases hnil
      · rw [List.filterMap_nil, List.append_nil] at hdata
        rw [List.foldl_nil, hcur, ← hdata]
  | call :: calls, cur => by
    rw [List.foldl_cons, follow_eq_some_iff, follow]
    simp only [unfinished_cons]
    by_cases hends : call.ends c = true
    · rw [if_pos hends]
      constructor
      · intro h
        obtain ⟨since, hun, hdata⟩ | ⟨hall, data, hopens, hdata⟩ := h
        · exact .inl ⟨since, .inl hun, hdata⟩
        · obtain ⟨hcall, rfl⟩ := CopyCall.ends_opens_iff.mp ⟨hends, hopens⟩
          exact .inl ⟨calls, .inr ⟨hcall, rfl, hall⟩, hdata⟩
      · intro h
        obtain ⟨since, hun | ⟨hcall, rfl, hall⟩, hdata⟩ | ⟨hall, -⟩ := h
        · exact .inl ⟨since, hun, hdata⟩
        · have hopens := (@CopyCall.ends_opens_iff c call ⟨buf.sql, []⟩).mpr ⟨hcall, rfl⟩
          exact .inr ⟨hall, [], hopens.2, hdata⟩
        · rw [hall call List.mem_cons_self] at hends
          cases hends
    · have hno : call.ends c = false := Bool.eq_false_iff.mpr hends
      have hpayloads : ∀ data, data ++ (call :: calls).filterMap (·.payload c) =
          data ++ (call.payload c).toList ++ calls.filterMap (·.payload c) := by
        intro data
        rw [List.filterMap_cons]
        rcases call.payload c with _ | payload <;> simp
      rw [if_neg hends]
      constructor
      · intro h
        obtain ⟨since, hun, hdata⟩ | ⟨hall, data, hmap, hdata⟩ := h
        · exact .inl ⟨since, .inl hun, hdata⟩
        · obtain ⟨old, hcur, hold⟩ := Option.map_eq_some_iff.mp hmap
          obtain ⟨hsql, rfl⟩ := CopyBuffer.mk.inj hold
          refine .inr ⟨List.forall_mem_cons.mpr ⟨hno, hall⟩, old.data, ?_, (hpayloads old.data).symm ▸ hdata⟩
          rw [hcur, ← hsql]
      · intro h
        obtain ⟨since, hun | ⟨rfl, -, -⟩, hdata⟩ | ⟨hall, data, rfl, hdata⟩ := h
        · exact .inl ⟨since, hun, hdata⟩
        · exact absurd (decide_eq_true rfl) hends
        · exact .inr ⟨(List.forall_mem_cons.mp hall).2, _, rfl, (hpayloads data) ▸ hdata⟩

end History

/-! ### The tracker -/

/-- What the tracker holds of the COPY that the calls left open. -/
inductive Tracks (t : CopyTracker) (c : ConnID) : Option CopyBuffer → Prop
  | idle (hactive : t.active c = none) (hsize : t.sizes c = none) (hover : t.overflow c = none) : Tracks t c none
  | within {buf : CopyBuffer} (hfits : totalBytes buf.data ≤ t.maxBytes) (hactive : t.active c = some buf)
      (hsize : (t.sizes c).getD 0 = totalBytes buf.data) (hover : (t.overflow c).getD false = false) :
      Tracks t c (some buf)
  | beyond {buf : CopyBuffer} (hlarge : t.maxBytes < totalBytes buf.data) (hactive : t.active c = some ⟨buf.sql, []⟩)
      (hsize : (t.sizes c).getD 0 = 0) (hover : (t.overflow c).getD false = true) : Tracks t c (some buf)

namespace Tracks

variable {t : CopyTracker} {c : ConnID} {cur : Option CopyBuffer}

/-- The calls for other connections change nothing here. -/
theorem frame (h : Tracks t c cur) {t' : CopyTracker} (hactive : t'.active c = t.active c)
    (hsizes : t'.sizes c = t.sizes c) (hover : t'.overflow c = t.overflow c) (hmax : t'.maxBytes = t.maxBytes) :
    Tracks t' c cur := by
  cases h with
  | idle ha hs ho => exact .idle (hactive.trans ha) (hsizes.trans hs) (hover.trans ho)
  | within hf ha hs ho => exact .within (hmax ▸ hf) (hactive.trans ha) (by rw [hsizes, hs]) (by rw [hover, ho])
  | beyond hl ha hs ho => exact .beyond (hmax ▸ hl) (hactive.trans ha) (by rw [hsizes, hs]) (by rw [hover, ho])

theorem clear : Tracks (t.clear c) c none :=
  .idle (GoMap.erase_self ..) (GoMap.erase_self ..) (GoMap.erase_self ..)

theorem clear_of_ne (h : Tracks t c cur) {c' : ConnID} (hne : c ≠ c') : Tracks (t.clear c') c cur :=
  h.frame (GoMap.erase_of_ne _ hne) (GoMap.erase_of_ne _ hne) (GoMap.erase_of_ne _ hne) rfl

theorem start (sql : Bytes) : Tracks (t.start c sql) c (some ⟨sql, []⟩) := by
  refine .within (Nat.zero_le _) (GoMap.set_self ..) ?_ ?_
  · rw [CopyTracker.start, CopyTracker.clear]
    simp [totalBytes]
  · rw [CopyTracker.start, CopyTracker.clear]
    simp

theorem start_of_ne (h : Tracks t c cur) {c' : ConnID} (hne : c ≠ c') (sql : Bytes) : Tracks (t.start c' sql) c cur :=
  (h.clear_of_ne hne).frame (GoMap.set_of_ne _ _ hne) rfl rfl rfl

theorem data_of_ne (h : Tracks t c cur) {c' : ConnID} (hne : c ≠ c') (payload : Bytes) :
    Tracks (t.data c' payload) c cur := by
  unfold CopyTracker.data
  rcases t.active c' with _ | buf
  · exact h
  dsimp only
  split_ifs
  · exact h
  · exact h.frame (GoMap.set_of_ne _ _ hne) (GoMap.set_of_ne _ _ hne) (GoMap.set_of_ne _ _ hne) rfl
  · exact h.frame (GoMap.set_of_ne _ _ hne) (GoMap.set_of_ne _ _ hne) rfl rfl

theorem totalBytes_concat (payloads : List Bytes) (payload : Bytes) :
    totalBytes (payloads ++ [payload]) = totalBytes payloads + payload.length := by
  rw [totalBytes, List.map_append, List.sum_append]
  simp [totalBytes]

/-- A payload is added, or is the first that does not fit, or comes after that one. -/
theorem data (h : Tracks t c cur) (payload : Bytes) :
    Tracks (t.data c payload) c (cur.map fun buf => { buf with data := buf.data ++ [payload] }) := by
  unfold CopyTracker.data
  cases h with
  | idle ha hs ho =>
    rw [ha]
    exact .idle ha hs ho
  | @within buf hf ha hs ho =>
    rw [ha]
    dsimp only
    rw [if_neg (by rw [ho]; exact Bool.false_ne_true), hs]
    by_cases hlarge : t.maxBytes < totalBytes buf.data + payload.length
    · rw [if_pos hlarge]
      refine .beyond ?_ (GoMap.set_self ..) (congrArg (Option.getD · 0) (GoMap.set_self ..))
        (congrArg (Option.getD · false) (GoMap.set_self ..))
      rw [totalBytes_concat]
      exact hlarge
    · rw [if_neg hlarge]
      refine .within ?_ (GoMap.set_self ..) ?_ ho
      · rw [totalBytes_concat]
        exact Nat.le_of_not_lt hlarge
      · rw [totalBytes_concat]
        exact congrArg (Option.getD · 0) (GoMap.set_self ..)
  | @beyond buf hl ha hs ho =>
    rw [ha]
    dsimp only
    rw [if_pos ho]
    refine .beyond ?_ ha hs ho
    rw [totalBytes_concat]
    exact Nat.lt_add_right _ hl

theorem call_of_ne (h : Tracks t c cur) {call : CopyCall} (hne : c ≠ call.conn) : Tracks (t.call call) c cur := by
  cases call with
  | start conn sql => exact h.start_of_ne hne sql
  | data conn payload => exact h.data_of_ne hne payload
  | _ conn => exact h.clear_of_ne hne

/-- **One call** takes what the tracker holds of a connection to what the calls leave
open there. -/
theorem call (h : Tracks t c cur) (call : CopyCall) : Tracks (t.call call) c (follow c cur call) := by
  by_cases hc : c = call.conn
  · subst hc
    unfold follow
    cases call with
    | start conn sql =>
      rw [if_pos (by simp [CopyCall.ends, CopyCall.conn])]
      exact .start sql
    | data conn payload =>
      rw [if_neg (by simp [CopyCall.ends])]
      simpa [CopyTracker.call, CopyCall.payload, CopyCall.conn] using h.data payload
    | _ conn =>
      rw [if_pos (by simp [CopyCall.ends, CopyCall.conn])]
      exact .clear
  · rw [follow_of_ne hc]
    exact h.call_of_ne hc

/-- And so does every run. -/
theorem run : ∀ (calls : List CopyCall) {t : CopyTracker} {cur : Option CopyBuffer}, Tracks t c cur →
    Tracks (t.run calls) c (calls.foldl (follow c) cur)
  | [], _, _, h => h
  | call :: calls, _, _, h => run calls (h.call call)

/-- What `Done` returns. -/
theorem done (h : Tracks t c cur) :
    (t.done c).2 = cur.filter fun buf => totalBytes buf.data ≤ t.maxBytes := by
  unfold CopyTracker.done
  cases h with
  | idle ha hs ho =>
    rw [ho, ha]
    rfl
  | within hf ha hs ho => simp [ho, ha, Option.filter, hf]
  | beyond hl ha hs ho => simp [ho, Option.filter, hl]

/-- What is buffered. -/
theorem buffered (h : Tracks t c cur) :
    t.buffered c = (t.sizes c).getD 0 ∧ t.buffered c ≤ t.maxBytes ∧
      ((t.overflow c).getD false = true → ∀ buf ∈ t.active c, buf.data = []) := by
  unfold CopyTracker.buffered
  cases h with
  | idle ha hs ho => simp [ha, hs, ho]
  | within hf ha hs ho => simp [ha, hs, ho, hf]
  | beyond hl ha hs ho => simp [ha, hs, totalBytes]

end Tracks

theorem CopyTracker.maxBytes_call (t : CopyTracker) (call : CopyCall) : (t.call call).maxBytes = t.maxBytes := by
  cases call with
  | data conn payload =>
    show (t.data conn payload).maxBytes = t.maxBytes
    unfold data
    rcases t.active conn with _ | buf
    · rfl
    dsimp only
    split_ifs <;> rfl
  | _ => rfl

theorem CopyTracker.maxBytes_run (t : CopyTracker) (calls : List CopyCall) : (t.run calls).maxBytes = t.maxBytes := by
  induction calls generalizing t with
  | nil => rfl
  | cons call calls ih => exact (ih (t.call call)).trans (t.maxBytes_call call)

/-- **The buffer is exact and bounded.** After any calls, `Done` returns a COPY exactly
if it is the last one started and not ended, with its payloads since, and these fit the
limit; and the tracker counts the bytes it buffers, which fit, and none of a COPY that
does not. -/
theorem copy_exact (limit : ℤ) (hlimit : 0 < limit) (calls : List CopyCall) (c : ConnID) :
    let t := (CopyTracker.newWithLimit limit).run calls
    (∀ buf, (t.done c).2 = some buf ↔ ∃ since, Unfinished c calls buf.sql since ∧
        buf.data = since.filterMap (·.payload c) ∧ totalBytes (since.filterMap (·.payload c)) ≤ limit) ∧
      t.buffered c = (t.sizes c).getD 0 ∧ t.buffered c ≤ limit ∧
      ((t.overflow c).getD false = true → ∀ buf ∈ t.active c, buf.data = []) := by
  intro t
  have htracks : Tracks t c (calls.foldl (follow c) none) := Tracks.run calls (.idle rfl rfl rfl)
  have hmax : (t.maxBytes : ℤ) = limit := by
    rw [CopyTracker.maxBytes_run, CopyTracker.newWithLimit, if_neg (Int.not_le.mpr hlimit),
      Int.toNat_of_nonneg hlimit.le]
  obtain ⟨hsize, hbound, hover⟩ := htracks.buffered
  refine ⟨fun buf => ?_, hsize, hmax ▸ Int.ofNat_le.mpr hbound, hover⟩
  rw [htracks.done, Option.filter_eq_some_iff, follow_eq_some_iff, decide_eq_true_iff]
  constructor
  · intro ⟨hopen, hfits⟩
    obtain ⟨since, hun, hdata⟩ | ⟨-, data, hnone, -⟩ := hopen
    · exact ⟨since, hun, hdata, hmax ▸ hdata ▸ Int.ofNat_le.mpr hfits⟩
    · cases hnone
  · intro ⟨since, hun, hdata, hfits⟩
    refine ⟨.inl ⟨since, hun, hdata⟩, ?_⟩
    rw [hdata]
    exact Int.ofNat_le.mp (hmax ▸ hfits)

/-- Two connections with a COPY each, one of which does not fit. -/
theorem two_copies :
    let c : ConnID := ⟨.v4 1, 50000, .v4 2, 5432⟩
    let d : ConnID := ⟨.v4 1, 50001, .v4 2, 5432⟩
    let t := (CopyTracker.newWithLimit 3).run
      [.start c [99], .start d [100], .data c [1, 2], .data d [3, 4], .data c [5], .data d [6, 7]]
    (t.done c).2 = some ⟨[99], [[1, 2], [5]]⟩ ∧ t.buffered d ≤ (3 : ℤ) := by
  intro c d t
  refine ⟨((copy_exact 3 (by decide) _ c).1 ⟨[99], [[1, 2], [5]]⟩).mpr ?_, (copy_exact 3 (by decide) _ d).2.2.1⟩
  exact ⟨[.start d [100], .data c [1, 2], .data d [3, 4], .data c [5], .data d [6, 7]], ⟨⟨[], rfl⟩, by decide⟩,
    by decide, by decide⟩

end PgShadow
