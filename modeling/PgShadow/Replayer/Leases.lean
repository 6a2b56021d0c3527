/-
# Leases of the lanes

`poolExecutor.Exec` under session affinity: a lane that executes an event calls
`AcquireFor` for the event's connection, any number of times (retries, resets),
and the lease stays until the lane retires, at the end of `Run`. The run of the
dispatcher and the lanes (`Replay`) and the pool (`Pool`) are put together here;
the goroutine of a lane is known to the pool by the lane's key. The source has
`PoolMaxConns` connections.

A connection of the source of traffic holds at most one handle, so an `AcquireFor`
finds its lease or a free handle as long as the events come from at most
`PoolMaxConns` connections (`connection_found`). With more of them, idle lanes
hold all handles (`leases_exhausted`).

Key definitions: `Leases.step`, `Leases.Inv`.
Key theorems: `Leases.connection_found`.
-/
import Mathlib.Data.Finset.Card
import PgShadow.Replayer.Run
import PgShadow.Replayer.Pool

namespace PgShadow

/-! ### Lanes know their own connections only -/

namespace Replay

variable {F : Type} {r : Replayer F} {s : Replay} {k : Bytes}

/-- The lane of a connection. -/
def laneOf (r : Replayer F) (c : ConnID) : Bytes := if r.serial then serialLaneKey else c.key

/-- The connections that events were dequeued from. -/
def conns (s : Replay) : List ConnID := s.dequeued.map (·.conn)

/-- A lane executes events of its own connections, and has seen only those. -/
structure KnownLane (r : Replayer F) (s : Replay) (k : Bytes) (l : Lane) : Prop where
  executing : ∀ ev, l.worker = .executing ev → laneOf r ev.conn = k ∧ ev.conn ∈ s.conns
  seen : ∀ key c, l.seen key = some c → laneOf r c = k ∧ c ∈ s.conns

def Known (r : Replayer F) (s : Replay) : Prop := ∀ k l, s.lanes k = some l → KnownLane r s k l

theorem Inv.known_of_pending (h : Inv r s) {l : Lane} (hl : s.lanes k = some l) {ev : SQLEvent} (hev : ev ∈ l.pending) :
    laneOf r ev.conn = k ∧ ev.conn ∈ s.conns := by
  have hmem : ev ∈ s.dequeued.filter (ofLane r k) := by
    rw [h.flow k, pendingAt, hl]
    exact List.mem_append_left _ (List.mem_append_right _ hev)
  exact ⟨h.ofLane_pending hl hev, List.mem_map_of_mem (List.mem_filter.mp hmem).1⟩

theorem Known.setLane (h : Known r s) {l : Lane} (hl : KnownLane r s k l) : Known r (s.setLane k l) := by
  intro k' l' hl'
  rcases GoMap.set_eq_some hl' with ⟨rfl, rfl⟩ | ⟨-, hl'⟩
  · exact ⟨hl.executing, hl.seen⟩
  · exact ⟨(h k' l' hl').executing, (h k' l' hl').seen⟩

/-- The lanes stay as they are, and no event is forgotten. -/
theorem Known.of_lanes_eq (h : Known r s) (s' : Replay) (hlanes : s'.lanes = s.lanes) (hsub : s.conns ⊆ s'.conns) :
    Known r s' := by
  intro k l hl
  have hk := h k l (hlanes ▸ hl)
  exact ⟨fun ev hw => ⟨(hk.executing ev hw).1, hsub (hk.executing ev hw).2⟩,
    fun key c hc => ⟨(hk.seen key c hc).1, hsub (hk.seen key c hc).2⟩⟩

theorem Known.onLane (h : Known r s) {f : Lane → Replay} (hf : ∀ l, s.lanes k = some l → Known r (f l)) :
    Known r (s.onLane k f) := by
  unfold Replay.onLane
  rcases hl : s.lanes k with _ | l
  · exact h
  · exact hf l hl

theorem Known.take (h : Known r s) (hi : Inv r s) {l : Lane} (hl : s.lanes k = some l) :
    Known r (s.setLane k l.take) := by
  apply h.setLane
  have hk := h k l hl
  rcases l.take_cases with htake | ⟨ev, buf, hw, hb, htake⟩ | ⟨hw, hb, hc, htake⟩ <;> rw [htake]
  · exact hk
  · have hev : ev ∈ l.pending := by simp [Lane.pending, hb]
    refine ⟨fun ev' hw' => (by cases hw'), fun key c hc => ?_⟩
    rcases GoMap.set_eq_some hc with ⟨-, rfl⟩ | ⟨-, hc⟩
    · exact hi.known_of_pending hl hev
    · exact hk.seen key c hc
  · exact ⟨fun ev hw' => (by cases hw'), hk.seen⟩

theorem Known.enqueueLane (h : Known r s) (k : Bytes) (ev : SQLEvent) : Known r (s.enqueueLane k ev) := by
  unfold Replay.enqueueLane
  rcases hl : s.lanes k with _ | l
  · have hnew : KnownLane r s k { buf := [ev] } := ⟨fun ev hw => (by cases hw), fun key c hc => (by cases hc)⟩
    exact (h.setLane hnew).of_lanes_eq _ rfl (List.Subset.refl _)
  · exact h.setLane ⟨(h k l hl).executing, (h k l hl).seen⟩

variable [Float64 F]

theorem conns_step (r : Replayer F) (s : Replay) (a : Act) : s.conns ⊆ (step r s a).conns := by
  by_cases ha : ∃ now, a = .dequeue now
  · obtain ⟨now, rfl⟩ := ha
    dsimp only [step]
    split
    · exact List.map_subset _ (List.subset_append_left _ _)
    · exact List.Subset.refl _
  · rw [conns, conns, (step_of_ne_dequeue r s fun now heq => ha ⟨now, heq⟩).2]
    exact List.Subset.refl _

theorem Known.step (h : Known r s) (hi : Inv r s) (a : Act) : Known r (step r s a) := by
  have hsame : ∀ s' : Replay, s'.lanes = s.lanes → s'.dequeued = s.dequeued → Known r s' := fun s' hlanes hd =>
    h.of_lanes_eq s' hlanes (by rw [conns, conns, hd]; exact List.Subset.refl _)
  rcases a with ev | _ | _ | _ | now | _ | _ | k | _ | k | k | k | k <;> dsimp only [Replay.step]
  case arrive => exact hsame _ rfl rfl
  case cancel => exact hsame _ rfl rfl
  case dequeue =>
    split
    · rename_i ev rest _ _
      refine h.of_lanes_eq _ rfl ?_
      exact List.map_subset _ (List.subset_append_left _ _)
    · exact h
  case route =>
    split
    · rename_i ev _
      exact (h.enqueueLane (laneKey r ev) ev).of_lanes_eq _ rfl (List.Subset.refl _)
    · exact h
  case closeLane =>
    split_ifs
    · exact h.onLane fun l hl => h.setLane ⟨(h k l hl).executing, (h k l hl).seen⟩
    · exact h
  case take => exact h.onLane fun l hl => h.take hi hl
  case start =>
    refine h.onLane fun l hl => ?_
    split
    · rename_i ev hw
      split_ifs
      · have hev : ev ∈ l.pending := by simp [Lane.pending, hw, Worker.inHand]
        have hlane : KnownLane r s k { l with worker := .executing ev } := by
          refine ⟨fun ev' hw' => ?_, (h k l hl).seen⟩
          rw [← Worker.executing.inj hw']
          exact hi.known_of_pending hl hev
        exact (h.setLane hlane).of_lanes_eq _ rfl (List.Subset.refl _)
      · exact h
    · exact h
  case giveUp =>
    refine h.onLane fun l hl => ?_
    split
    · split_ifs
      · exact h.setLane ⟨fun ev hw => (by cases hw), (h k l hl).seen⟩
      · exact h
    · exact h
  case finish =>
    refine h.onLane fun l hl => ?_
    split
    · have hlane : KnownLane r s k { l with worker := .ready } := ⟨fun ev hw => (by cases hw), (h k l hl).seen⟩
      exact (h.setLane hlane).of_lanes_eq _ rfl (List.Subset.refl _)
    · exact h
  all_goals
    split_ifs
    · exact hsame _ rfl rfl
    · exact h

end Replay

/-! ### Each connection holds one handle at most -/

namespace Pool

variable {τ η : Type}

/-- The handle a goroutine holds, with the connection it holds it for. -/
def Call.holding : Call η → Option (ConnID × η)
  | .releasing c h _ => some (c, h)
  | .installing c h => some (c, h)
  | _ => none

theorem Call.mem_held {call : Call η} {c : ConnID} {h : η} (hh : call.holding = some (c, h)) : h ∈ call.held := by
  rcases call with _ | _ | _ | _ | _ | _ | _ <;> cases hh <;> exact List.mem_singleton_self h

/-- The call of the goroutine `t` is for one of its own connections, and the lease
of that connection is as the call knows it. -/
def CallOk (lane : ConnID → τ) (conns : List ConnID) (leases : List (ConnID × η)) (t : τ) : Call η → Prop
  | .idle => True
  | .pinging c h => lane c = t ∧ c ∈ conns ∧ leases.lookup c = some h
  | .releasing c _ _ => lane c = t ∧ c ∈ conns ∧ leases.lookup c = none
  | .acquiring c => lane c = t ∧ c ∈ conns ∧ leases.lookup c = none
  | .installing c _ => lane c = t ∧ c ∈ conns ∧ leases.lookup c = none
  | .closing _ => False
  | .lent _ => False

/-- The connection has the handle leased, or a goroutine holds it for it. -/
def Holder (p : Pool τ η) (c : ConnID) (h : η) : Prop :=
  p.leases.lookup c = some h ∨ ∃ t, (p.calls t).holding = some (c, h)

/-- A pool whose connections are served by one goroutine each. -/
structure Served (lane : ConnID → τ) (conns : List ConnID) (p : Pool τ η) : Prop where
  affinity : p.sessionAffinity = true
  calls : ∀ t, CallOk lane conns p.leases t (p.calls t)
  once : p.out.Nodup
  held : ∀ h ∈ p.out, ∃ c ∈ conns, p.Holder c h

variable {lane : ConnID → τ} {conns : List ConnID} {p : Pool τ η} {t : τ} {c : ConnID}

theorem CallOk.conn {leases : List (ConnID × η)} {call : Call η} {h : η} (hok : CallOk lane conns leases t call)
    (hheld : call.holding = some (c, h)) : lane c = t ∧ c ∈ conns ∧ leases.lookup c = none := by
  rcases call with _ | _ | ⟨c', x, again⟩ | _ | ⟨c', x⟩ | _ | _ <;> cases hheld <;> exact hok

/-- Other goroutines do not see what happens to this one's leases. -/
theorem CallOk.frame {leases leases' : List (ConnID × η)} {call : Call η} {t' : τ} (hc : lane c = t) (ht : t' ≠ t)
    (hlookup : ∀ c', c' ≠ c → leases'.lookup c' = leases.lookup c') (hok : CallOk lane conns leases t' call) :
    CallOk lane conns leases' t' call := by
  have hother : ∀ c', lane c' = t' → leases'.lookup c' = leases.lookup c' := by
    intro c' hc'
    apply hlookup
    rintro rfl
    exact ht (hc'.symm.trans hc)
  rcases call with _ | ⟨c', x⟩ | ⟨c', x, again⟩ | c' | ⟨c', x⟩ | _ | _
  · trivial
  · exact ⟨hok.1, hok.2.1, (hother c' hok.1).trans hok.2.2⟩
  · exact ⟨hok.1, hok.2.1, (hother c' hok.1).trans hok.2.2⟩
  · exact ⟨hok.1, hok.2.1, (hother c' hok.1).trans hok.2.2⟩
  · exact ⟨hok.1, hok.2.1, (hother c' hok.1).trans hok.2.2⟩
  · exact hok
  · exact hok

theorem lookup_delete_self (leases : List (ConnID × η)) (c : ConnID) : (delete leases c).lookup c = none := by
  rw [List.lookup_eq_none_iff]
  intro x hx
  have hne : x.1 ≠ c := by simpa using (List.mem_filter.mp hx).2
  simpa using Ne.symm hne

theorem lookup_delete_of_ne : ∀ (leases : List (ConnID × η)) {c c' : ConnID}, c' ≠ c →
    (delete leases c).lookup c' = leases.lookup c'
  | [], _, _, _ => rfl
  | (d, x) :: leases, c, c', hne => by
    have ih := lookup_delete_of_ne leases hne
    by_cases hd : d = c
    · have hcd : (c' == d) = false := by simpa [hd] using hne
      rw [List.lookup_cons, hcd, ← ih]
      simp [delete, hd]
    · rw [List.lookup_cons, ← ih]
      simp [delete, hd, List.lookup_cons]

variable [DecidableEq τ]

/-- **An action of a goroutine** for the connection `c`. Every handle that is out
afterwards was out before, in other hands, or is now the connection's. -/
theorem Served.act (h : Served lane conns p) (hc : lane c = t) (hmem : c ∈ conns) {p' : Pool τ η} {call : Call η}
    (haff : p'.sessionAffinity = p.sessionAffinity) (hcalls : p'.calls = Function.update p.calls t call)
    (hlookup : ∀ c', c' ≠ c → p'.leases.lookup c' = p.leases.lookup c')
    (hok : CallOk lane conns p'.leases t call) (honce : p'.out.Nodup)
    (hheld : ∀ x ∈ p'.out, (x ∈ p.out ∧ p.leases.lookup c ≠ some x ∧ ∀ d, (p.calls t).holding ≠ some (d, x)) ∨
      p'.leases.lookup c = some x ∨ call.holding = some (c, x)) : Served lane conns p' where
  affinity := haff.trans h.affinity
  calls t' := by
    by_cases ht : t' = t
    · rw [ht, hcalls, Function.update_self]
      exact hok
    · rw [hcalls, Function.update_of_ne ht]
      exact (h.calls t').frame hc ht hlookup
  once := honce
  held x hx := by
    have hself : (p'.calls t).holding = call.holding := by rw [hcalls, Function.update_self]
    rcases hheld x hx with ⟨hout, hnot, hfree⟩ | hlease | hcall
    · obtain ⟨d, hd, hl | ⟨t', ht'⟩⟩ := h.held x hout
      · have hne : d ≠ c := by
          rintro rfl
          exact hnot hl
        exact ⟨d, hd, Or.inl ((hlookup d hne).trans hl)⟩
      · have hne : t' ≠ t := by
          rintro rfl
          exact hfree d ht'
        refine ⟨d, hd, Or.inr ⟨t', ?_⟩⟩
        rw [hcalls, Function.update_of_ne hne]
        exact ht'
    · exact ⟨c, hmem, Or.inl hlease⟩
    · exact ⟨c, hmem, Or.inr ⟨t, hself.trans hcall⟩⟩

/-- The goroutine goes on with what it holds. -/
theorem Served.setCall (h : Served lane conns p) {call : Call η} (hok : CallOk lane conns p.leases t call)
    (hkeep : ∀ d, (p.calls t).holding = some d → call.holding = some d) : Served lane conns (p.setCall t call) where
  affinity := h.affinity
  calls t' := by
    dsimp only [Pool.setCall]
    by_cases ht : t' = t
    · rw [ht, Function.update_self]
      exact hok
    · rw [Function.update_of_ne ht]
      exact h.calls t'
  once := h.once
  held x hx := by
    obtain ⟨d, hd, hl | ⟨t', ht'⟩⟩ := h.held x hx
    · exact ⟨d, hd, Or.inl hl⟩
    · refine ⟨d, hd, Or.inr ⟨t', ?_⟩⟩
      dsimp only [Pool.setCall]
      by_cases ht : t' = t
      · rw [ht, Function.update_self]
        exact hkeep _ (ht ▸ ht')
      · rw [Function.update_of_ne ht]
        exact ht'

/-- A lease is taken away, to be released. -/
theorem Served.unlease (h : Served lane conns p) (hc : lane c = t) (hmem : c ∈ conns) {x : η}
    (hl : p.leases.lookup c = some x) (hnone : (p.calls t).holding = none) (again : Bool) :
    Served lane conns (Pool.setCall { p with leases := delete p.leases c } t (.releasing c x again)) := by
  refine h.act hc hmem rfl rfl (fun c' hne => lookup_delete_of_ne _ hne) ⟨hc, hmem, lookup_delete_self _ _⟩ h.once
    fun y hy => ?_
  by_cases hxy : y = x
  · rw [hxy]
    exact Or.inr (Or.inr rfl)
  · refine Or.inl ⟨hy, fun hly => hxy (Option.some.inj (hly.symm.trans hl)), fun d hd => ?_⟩
    rw [hnone] at hd
    cases hd

theorem Served.installed (h : Served lane conns p) {x : η} (hcall : p.calls t = .installing c x) :
    Served lane conns (Pool.setCall { p with leases := (c, x) :: p.leases } t .idle) := by
  obtain ⟨hc, hmem, hl⟩ : CallOk lane conns p.leases t (.installing c x) := hcall ▸ h.calls t
  have hself : ((c, x) :: p.leases).lookup c = some x := by simp
  refine h.act hc hmem rfl rfl (fun c' hne => ?_) trivial h.once fun y hy => ?_
  · have hne' : (c' == c) = false := by simpa using hne
    dsimp only [Pool.setCall]
    rw [List.lookup_cons, hne']
  · by_cases hxy : y = x
    · rw [hxy]
      exact Or.inr (Or.inl hself)
    · refine Or.inl ⟨hy, fun hly => ?_, fun d hd => ?_⟩
      · rw [hl] at hly
        cases hly
      · rw [hcall] at hd
        exact hxy (congrArg Prod.snd (Option.some.inj hd)).symm

theorem Served.acquired (h : Served lane conns p) {x : η} (hcall : p.calls t = .acquiring c) (hx : x ∉ p.out) :
    Served lane conns
      (Pool.setCall { p with out := x :: p.out, acquired := p.acquired ++ [x] } t (.installing c x)) := by
  obtain ⟨hc, hmem, hl⟩ : CallOk lane conns p.leases t (.acquiring c) := hcall ▸ h.calls t
  refine h.act hc hmem rfl rfl (fun _ _ => rfl) ⟨hc, hmem, hl⟩ (List.nodup_cons.mpr ⟨hx, h.once⟩) fun y hy => ?_
  rcases List.mem_cons.mp hy with rfl | hy
  · exact Or.inr (Or.inr rfl)
  · refine Or.inl ⟨hy, fun hly => ?_, fun d hd => ?_⟩
    · rw [hl] at hly
      cases hly
    · rw [hcall] at hd
      cases hd

variable [DecidableEq η]

theorem Served.released (h : Served lane conns p) {x : η} {again : Bool} (hcall : p.calls t = .releasing c x again) :
    Served lane conns ((p.releaseHandle x).setCall t (if again then .acquiring c else .idle)) := by
  obtain ⟨hc, hmem, hl⟩ : CallOk lane conns p.leases t (.releasing c x again) := hcall ▸ h.calls t
  have hok : CallOk lane conns p.leases t (if again then .acquiring c else .idle) := by
    rcases again with _ | _
    · trivial
    · exact ⟨hc, hmem, hl⟩
  refine h.act hc hmem rfl rfl (fun _ _ => rfl) hok (h.once.erase x) fun y hy => ?_
  have hyx : y ≠ x := by
    rintro rfl
    exact h.once.not_mem_erase hy
  refine Or.inl ⟨List.mem_of_mem_erase hy, fun hly => ?_, fun d hd => ?_⟩
  · rw [hl] at hly
    cases hly
  · rw [hcall] at hd
    exact hyx (congrArg Prod.snd (Option.some.inj hd)).symm

/-- A call of `acquireFor`, from its start. -/
theorem Served.acquireFor (h : Served lane conns p) (hc : lane c = t) (hmem : c ∈ conns) :
    Served lane conns (p.step (.acquireFor t c)) := by
  dsimp only [step]
  split
  · rename_i hidle
    have hkeep : ∀ call : Call η, ∀ d, (p.calls t).holding = some d → call.holding = some d := fun call d hd => by
      rw [hidle] at hd
      cases hd
    split_ifs with hclosed haff
    · exact h
    · rcases hl : p.leases.lookup c with _ | x
      · exact h.setCall ⟨hc, hmem, hl⟩ (hkeep _)
      · exact h.setCall ⟨hc, hmem, hl⟩ (hkeep _)
    · exact absurd h.affinity haff
  · exact h

theorem Served.pinged (h : Served lane conns p) (ok : Bool) : Served lane conns (p.step (.pinged t ok)) := by
  dsimp only [step]
  split
  · rename_i c x hcall
    obtain ⟨hc, hmem, hl⟩ : CallOk lane conns p.leases t (.pinging c x) := hcall ▸ h.calls t
    have hnone : (p.calls t).holding = none := by rw [hcall]; rfl
    rw [if_pos hl, if_pos hl]
    split_ifs
    · exact h.setCall trivial fun d hd => by rw [hnone] at hd; cases hd
    · exact h.unlease hc hmem hl hnone true
  · exact h

theorem Served.acquire (h : Served lane conns p) (res : Option η) : Served lane conns (p.step (.acquired t res)) := by
  dsimp only [step]
  split
  · rename_i hcall
    split_ifs with hx
    · exact h
    · exact h.acquired hcall hx
  · rename_i hcall
    exact h.setCall trivial fun d hd => by rw [hcall] at hd; cases hd
  · exact h

theorem Served.install (h : Served lane conns p) : Served lane conns (p.step (.install t)) := by
  dsimp only [step]
  split
  · rename_i c x hcall
    have hok : CallOk lane conns p.leases t (.installing c x) := hcall ▸ h.calls t
    rw [if_neg (by simp [h.affinity]), hok.2.2]
    split_ifs
    · exact h.setCall hok fun d hd => by rw [hcall] at hd; exact hd
    · exact h.installed hcall
  · exact h

theorem Served.release (h : Served lane conns p) (hc : lane c = t) (hmem : c ∈ conns) :
    Served lane conns (p.step (.release t c)) := by
  dsimp only [step]
  split
  · rename_i hidle hl
    exact h.unlease hc hmem hl (by rw [hidle]; rfl) false
  · exact h

theorem Served.releaseOne (h : Served lane conns p) (i : ℕ) : Served lane conns (p.step (.releaseOne t i)) := by
  dsimp only [step]
  split
  · rename_i hcall
    exact h.released hcall
  · rename_i hcall
    exact absurd (h.calls t) (by rw [hcall]; exact id)
  · rename_i hcall
    exact absurd (h.calls t) (by rw [hcall]; exact id)
  · exact h

omit [DecidableEq τ] [DecidableEq η] in
theorem Served.mono (h : Served lane conns p) {conns' : List ConnID} (hsub : conns ⊆ conns') :
    Served lane conns' p where
  affinity := h.affinity
  calls t := by
    have hok := h.calls t
    rcases hcall : p.calls t with _ | ⟨c, x⟩ | ⟨c, x, again⟩ | c | ⟨c, x⟩ | _ | _ <;> rw [hcall] at hok
    · trivial
    · exact ⟨hok.1, hsub hok.2.1, hok.2.2⟩
    · exact ⟨hok.1, hsub hok.2.1, hok.2.2⟩
    · exact ⟨hok.1, hsub hok.2.1, hok.2.2⟩
    · exact ⟨hok.1, hsub hok.2.1, hok.2.2⟩
    · exact hok
    · exact hok
  once := h.once
  held x hx := by
    obtain ⟨c, hc, hholder⟩ := h.held x hx
    exact ⟨c, hsub hc, hholder⟩

omit [DecidableEq τ] in
/-- **A free handle.** If the connection `c` holds no handle, the others leave one
free. -/
theorem Served.length_out_lt (h : Served lane conns p) (hmem : c ∈ conns) (hfree : ∀ x, ¬p.Holder c x) :
    p.out.length < conns.dedup.length := by
  choose f hf using h.held
  -- no two handles are held for one connection
  have hinj : ∀ d x y, p.Holder d x → p.Holder d y → x = y := by
    intro d x y hx hy
    rcases hx with hx | ⟨t, ht⟩ <;> rcases hy with hy | ⟨t', ht'⟩
    · exact Option.some.inj (hx.symm.trans hy)
    · rw [((h.calls t').conn ht').2.2] at hx
      cases hx
    · rw [((h.calls t).conn ht).2.2] at hy
      cases hy
    · have heq : t = t' := ((h.calls t).conn ht).1.symm.trans ((h.calls t').conn ht').1
      subst heq
      exact congrArg Prod.snd (Option.some.inj (ht.symm.trans ht'))
  have hcard : p.out.toFinset.card ≤ (conns.toFinset.erase c).card := by
    apply Finset.card_le_card_of_injOn fun x => if hx : x ∈ p.out then f x hx else c
    · intro x hx
      have hx' : x ∈ p.out := List.mem_toFinset.mp hx
      have hne : f x hx' ≠ c := fun heq => hfree x (heq ▸ (hf x hx').2)
      simpa [hx', hne] using (hf x hx').1
    · intro x hx y hy heq
      have hx' : x ∈ p.out := List.mem_toFinset.mp hx
      have hy' : y ∈ p.out := List.mem_toFinset.mp hy
      simp only [hx', hy', dite_true] at heq
      exact hinj _ x y (hf x hx').2 (heq ▸ (hf y hy').2)
  calc p.out.length = p.out.toFinset.card := (List.toFinset_card_of_nodup h.once).symm
    _ ≤ (conns.toFinset.erase c).card := hcard
    _ < conns.toFinset.card := Finset.card_erase_lt_of_mem (List.mem_toFinset.mpr hmem)
    _ = conns.dedup.length := List.card_toFinset conns

end Pool

/-! ### The run with its pool -/

/-- The size of the source, as `NewPool` sets it. -/
def poolMaxConns (cfg : ReplayConfig) : ℤ := if cfg.poolMaxConns ≤ 0 then defaultPoolMaxConns else cfg.poolMaxConns

/-- A run of the replayer and its pool. -/
structure Leases (η : Type) where
  replay : Replay := {}
  pool : Pool Bytes η := {}

namespace Leases

variable {F : Type} [Float64 F] {η : Type} [DecidableEq η]

/-- The actions: of the run, and of the goroutine of the lane `k` in the pool, in
`AcquireFor` while it executes an event or in `Release` when it retires. -/
inductive Act (η : Type)
  | replay (a : Replay.Act)
  | acquireFor (k : Bytes)
  | pinged (k : Bytes) (ok : Bool)
  | acquired (k : Bytes) (res : Option η)
  | install (k : Bytes)
  | releaseOne (k : Bytes)
  | retire (k : Bytes) (c : ConnID)
deriving DecidableEq

/-- An execution ends outside of the pool, and the source has `size` connections. -/
def step (r : Replayer F) (size : ℤ) (s : Leases η) : Act η → Leases η
  | .replay (.finish k) =>
    if s.pool.calls k = .idle then { s with replay := s.replay.step r (.finish k) } else s
  | .replay a => { s with replay := s.replay.step r a }
  | .acquireFor k =>
    match (s.replay.lanes k).map Lane.worker with
    | some (.executing ev) => { s with pool := s.pool.step (.acquireFor k ev.conn) }
    | _ => s
  | .pinged k ok => { s with pool := s.pool.step (.pinged k ok) }
  | .acquired k none => { s with pool := s.pool.step (.acquired k none) }
  | .acquired k (some h) =>
    if s.pool.out.length < size then { s with pool := s.pool.step (.acquired k (some h)) } else s
  | .install k => { s with pool := s.pool.step (.install k) }
  | .releaseOne k => { s with pool := s.pool.step (.releaseOne k 0) }
  | .retire k c =>
    if (s.replay.lanes k).any fun l => l.worker.isGone && l.seen c.key = some c then
      { s with pool := s.pool.step (.release k c) }
    else s

/-- The state after the actions. -/
def run (r : Replayer F) (size : ℤ) (acts : List (Act η)) : Leases η := acts.foldl (step r size) {}

/-- Every connection is served by the goroutine of its lane. -/
structure Inv (r : Replayer F) (s : Leases η) : Prop where
  replay : Replay.Inv r s.replay
  known : Replay.Known r s.replay
  served : Pool.Served (Replay.laneOf r) s.replay.conns s.pool

variable {r : Replayer F} {s : Leases η}

omit [DecidableEq η] in
theorem Inv.stepReplay (h : Inv r s) (a : Replay.Act) : Inv r { s with replay := s.replay.step r a } where
  replay := h.replay.step a
  known := h.known.step h.replay a
  served := h.served.mono (Replay.conns_step r s.replay a)

omit [Float64 F] [DecidableEq η] in
theorem Inv.setPool (h : Inv r s) {pool : Pool Bytes η} (hserved : Pool.Served (Replay.laneOf r) s.replay.conns pool) :
    Inv r { s with pool } := ⟨h.replay, h.known, hserved⟩

/-- **The step.** -/
theorem Inv.step (h : Inv r s) (size : ℤ) (a : Act η) : Inv r (step r size s a) := by
  unfold Leases.step
  split
  · split_ifs
    · exact h.stepReplay _
    · exact h
  · exact h.stepReplay _
  · split
    · rename_i k _ ev hw
      obtain ⟨l, hl, hworker⟩ := Option.map_eq_some_iff.mp hw
      obtain ⟨hlane, hmem⟩ := (h.known k l hl).executing ev hworker
      exact h.setPool (h.served.acquireFor hlane hmem)
    · exact h
  · exact h.setPool (h.served.pinged _)
  · exact h.setPool (h.served.acquire _)
  · split_ifs
    · exact h.setPool (h.served.acquire _)
    · exact h
  · exact h.setPool h.served.install
  · exact h.setPool (h.served.releaseOne _)
  · rename_i k c
    split_ifs with hgone
    · obtain ⟨l, hl, hseen⟩ := (Option.any_eq_true _ _).mp hgone
      simp only [Bool.and_eq_true, decide_eq_true_eq] at hseen
      obtain ⟨hlane, hmem⟩ := (h.known k l hl).seen c.key c hseen.2
      exact h.setPool (h.served.release hlane hmem)
    · exact h

theorem Inv.foldl (size : ℤ) : ∀ (acts : List (Act η)) {s : Leases η}, Inv r s →
    Inv r (acts.foldl (Leases.step r size) s)
  | [], _, h => h
  | a :: acts, _, h => Inv.foldl size acts (h.step size a)

omit [Float64 F] [DecidableEq η] in
theorem inv_new (hr : 0 ≤ r.concurrency) : Inv r ({} : Leases η) where
  replay := Replay.inv_new hr
  known _ _ hl := by cases hl
  served := ⟨rfl, fun _ => trivial, List.nodup_nil, fun _ hx => (by cases hx)⟩

/-- **A connection is found.** In every run whose events come from at most
`PoolMaxConns` connections, a lane that executes an event and has no handle in its
hands finds a lease of the event's connection or a free handle. -/
theorem connection_found (cfg : ReplayConfig) (guard : Option (Guard F)) (acts : List (Act η))
    (hconns : (run (configureMode cfg guard) (poolMaxConns cfg) acts).replay.conns.dedup.length ≤ poolMaxConns cfg) :
    let s := run (configureMode cfg guard) (poolMaxConns cfg) acts
    ∀ k l ev, s.replay.lanes k = some l → l.worker = .executing ev → (s.pool.calls k).held = [] →
      s.pool.leases.lookup ev.conn ≠ none ∨ s.pool.out.length < poolMaxConns cfg := by
  intro s k l ev hl hw hheld
  have hpos := configureMode_concurrency_pos cfg guard
  have h : Inv (configureMode cfg guard) s := Inv.foldl _ acts (inv_new (by omega))
  obtain ⟨hlane, hmem⟩ := (h.known k l hl).executing ev hw
  by_cases hlease : s.pool.leases.lookup ev.conn = none
  · right
    have hfree : ∀ x, ¬s.pool.Holder ev.conn x := by
      rintro x (hx | ⟨k', hk'⟩)
      · rw [hlease] at hx
        cases hx
      · -- only the goroutine of the lane holds handles for the connection
        obtain rfl : k = k' := hlane.symm.trans ((h.served.calls k').conn hk').1
        have hx := Pool.Call.mem_held hk'
        rw [hheld] at hx
        cases hx
    have hlt := h.served.length_out_lt hmem hfree
    exact lt_of_lt_of_le (Int.ofNat_lt.mpr hlt) hconns
  · exact Or.inl hlease

/-- An event of the connection is captured and dequeued, and its lane executes it
up to `AcquireFor`. -/
def executes (c : ConnID) : List (Act ℕ) :=
  [.replay (.arrive { conn := c, sql := bytes "SELECT 1", timestamp := 0 }), .replay .check, .replay (.dequeue 0),
    .replay .route, .replay (.take c.key), .replay (.start c.key), .acquireFor c.key]

/-- It gets the handle `h`, and the execution ends. -/
def ends (c : ConnID) (h : ℕ) : List (Act ℕ) := [.acquired c.key (some h), .install c.key, .replay (.finish c.key)]

/-- A pool of two: the second connection finds a free handle. -/
theorem connection_found_second :
    let cfg : ReplayConfig := { poolMaxConns := 2 }
    let s := run (configureMode (F := ℚ) cfg none) (poolMaxConns cfg)
      (executes Pool.connA ++ ends Pool.connA 7 ++ executes Pool.connB)
    s.replay.conns = [Pool.connA, Pool.connB] ∧ s.pool.calls Pool.connB.key = .acquiring Pool.connB ∧
      (s.pool.leases.lookup Pool.connB ≠ none ∨ s.pool.out.length < poolMaxConns cfg) := by
  refine ⟨by decide +kernel, by decide +kernel, ?_⟩
  let ev : SQLEvent := { conn := Pool.connB, sql := bytes "SELECT 1", timestamp := 0 }
  let l : Lane := { worker := .executing ev, seen := GoMap.empty.set Pool.connB.key Pool.connB }
  exact connection_found { poolMaxConns := 2 } none _ (by decide +kernel) Pool.connB.key l ev rfl rfl
    (by decide +kernel)

/-- **Counterexample**: a pool of two and three connections. The lanes of the
first two are idle and keep their leases; the third executes alone and finds
neither a lease nor a free handle. -/
theorem leases_exhausted :
    let cfg : ReplayConfig := { poolMaxConns := 2 }
    let connC : ConnID := { Pool.connA with srcPort := 5002 }
    let s := run (configureMode (F := ℚ) cfg none) (poolMaxConns cfg)
      (executes Pool.connA ++ ends Pool.connA 7 ++ executes Pool.connB ++ ends Pool.connB 8 ++ executes connC)
    s.replay.executing = 1 ∧ (s.replay.lanes Pool.connA.key).any (fun l => l.buf = [] ∧ l.worker = .ready) ∧
      (s.replay.lanes Pool.connB.key).any (fun l => l.buf = [] ∧ l.worker = .ready) ∧
      s.pool.calls connC.key = .acquiring connC ∧ s.pool.leases.lookup connC = none ∧
      s.pool.out.length = poolMaxConns cfg := by
  decide +kernel

end Leases
end PgShadow
