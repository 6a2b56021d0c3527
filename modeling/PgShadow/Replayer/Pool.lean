/-
# The affinity pool

`pkg/replayer/pool.go`: `acquireFor`, `release` and `close` of an `affinityPool`,
called from any number of goroutines. A goroutine gives up the mutex around
`Ping`, `Acquire` and `Release`, so each of these is an action of its own, and so
is every stretch under the mutex. `Ping` answers as it likes, and `Acquire`
returns an error or any handle that is not outstanding; a handle may come back
after its `Release`.

A handle is released at most once for each `Acquire`, and no two connections have
it leased, as long as no lease is taken away while its handle is pinged and the
`Ping` fails (`released_once`). Without that, a handle is released twice
(`released_twice`): the branch for a dead connection releases the handle even if
its lease is gone, while the branch for a live one says not to.

Key definitions: `Pool.step`, `Pool.own`, `Pool.undisturbed`.
Key theorems: `Pool.released_once`.
-/
import PgShadow.Core
import PgShadow.Lib.Ownership

namespace PgShadow
namespace Pool

/-- Where a goroutine stands in a call: it pings the handle of a lease, is about
to release a handle (`again`: `acquireFor` then goes on to acquire one), waits
for the source, has a handle from it, or is in `close` with handles to release.
Without session affinity the caller gets the handle. -/
inductive Call (η : Type)
  | idle
  | pinging (conn : ConnID) (existing : η)
  | releasing (conn : ConnID) (h : η) (again : Bool)
  | acquiring (conn : ConnID)
  | installing (conn : ConnID) (h : η)
  | closing (hs : List η)
  | lent (h : η)
deriving DecidableEq

/-- The handles that a goroutine has to release or to install. -/
def Call.held {η : Type} : Call η → List η
  | .releasing _ h _ => [h]
  | .installing _ h => [h]
  | .closing hs => hs
  | .lent h => [h]
  | _ => []

end Pool

/-- An `affinityPool`, the goroutines in it and the handles outstanding at the
source. The last two fields are history: the results of `Acquire` and the calls
of `Release`. -/
structure Pool (τ η : Type) where
  sessionAffinity : Bool := true
  leases : List (ConnID × η) := []
  closed : Bool := false
  calls : τ → Pool.Call η := fun _ => .idle
  out : List η := []
  acquired : List η := []
  released : List η := []

namespace Pool

variable {τ η : Type}

/-- `delete(a.leases, conn)`. -/
def delete (leases : List (ConnID × η)) (c : ConnID) : List (ConnID × η) := leases.filter (·.1 ≠ c)

/-- `h.Release()`. -/
def releaseHandle [DecidableEq η] (p : Pool τ η) (h : η) : Pool τ η :=
  { p with out := p.out.erase h, released := p.released ++ [h] }

def setCall [DecidableEq τ] (p : Pool τ η) (t : τ) (call : Call η) : Pool τ η :=
  { p with calls := Function.update p.calls t call }

/-- The actions of the goroutine `t`. `pinged`, `acquired` and `releaseOne` are
the returns of `Ping`, of `Acquire` and of a `Release`; `releaseOne i` in `close`
is of the handle at place `i` of those left. -/
inductive Act (τ η : Type)
  | acquireFor (t : τ) (conn : ConnID)
  | pinged (t : τ) (ok : Bool)
  | acquired (t : τ) (res : Option η)
  | install (t : τ)
  | release (t : τ) (conn : ConnID)
  | close (t : τ)
  | releaseOne (t : τ) (i : ℕ)
  | closeSource (t : τ)
deriving DecidableEq

section Step

variable [DecidableEq τ] [DecidableEq η]

def step (p : Pool τ η) : Act τ η → Pool τ η
  | .acquireFor t c =>
    match p.calls t with
    | .idle =>
      if p.closed then p
      else
        match if p.sessionAffinity then p.leases.lookup c else none with
        | some existing => p.setCall t (.pinging c existing)
        | none => p.setCall t (.acquiring c)
    | _ => p
  | .pinged t ok =>
    match p.calls t with
    | .pinging c existing =>
      if ok then
        if p.leases.lookup c = some existing then p.setCall t .idle else p.setCall t (.acquiring c)
      else
        let leases := if p.leases.lookup c = some existing then delete p.leases c else p.leases
        setCall { p with leases } t (.releasing c existing true)
    | _ => p
  | .acquired t res =>
    match p.calls t, res with
    | .acquiring c, some h =>
      if h ∈ p.out then p
      else setCall { p with out := h :: p.out, acquired := p.acquired ++ [h] } t (.installing c h)
    | .acquiring _, none => p.setCall t .idle
    | _, _ => p
  | .install t =>
    match p.calls t with
    | .installing c h =>
      if !p.sessionAffinity then p.setCall t (.lent h)
      else if p.closed then p.setCall t (.releasing c h false)
      else
        match p.leases.lookup c with
        | some _ => p.setCall t (.releasing c h false)
        | none => setCall { p with leases := (c, h) :: p.leases } t .idle
    | _ => p
  | .release t c =>
    match p.calls t, p.leases.lookup c with
    | .idle, some h => setCall { p with leases := delete p.leases c } t (.releasing c h false)
    | _, _ => p
  | .close t =>
    match p.calls t with
    | .idle =>
      if p.closed then p
      else setCall { p with closed := true, leases := [] } t (.closing (p.leases.map Prod.snd))
    | _ => p
  | .releaseOne t i =>
    match p.calls t with
    | .releasing c h again => (p.releaseHandle h).setCall t (if again then .acquiring c else .idle)
    | .lent h => (p.releaseHandle h).setCall t .idle
    | .closing hs =>
      match hs[i]? with
      | some h => (p.releaseHandle h).setCall t (.closing (hs.eraseIdx i))
      | none => p
    | _ => p
  | .closeSource t => if p.calls t = .closing [] then p.setCall t .idle else p

/-- The state after the actions. -/
def run (p : Pool τ η) (acts : List (Act τ η)) : Pool τ η := acts.foldl step p

end Step

/-! ### Who owns a handle -/

/-- The leases own handles, and so does each goroutine. -/
def own (p : Pool τ η) : Option τ → List η
  | none => p.leases.map Prod.snd
  | some t => (p.calls t).held

/-- What holds as long as no `Ping` fails on a lease that was taken away. -/
structure Inv (p : Pool τ η) : Prop where
  exclusive : Ownership.Exclusive p.own p.out
  history : p.acquired.Perm (p.released ++ p.out)

theorem inv_new (sessionAffinity : Bool) : Inv ({ sessionAffinity } : Pool τ η) where
  exclusive :=
    { once := List.nodup_nil
      nodup := fun o => by rcases o with _ | t <;> exact List.nodup_nil
      owner := fun {x o o'} hx => by rcases o with _ | t <;> cases hx
      inUse := fun o => by rcases o with _ | t <;> exact List.nil_subset _ }
  history := List.Perm.refl _

section Own

variable [DecidableEq τ] {p : Pool τ η} {t : τ}

theorem own_setCall (p : Pool τ η) (t : τ) (call : Call η) :
    (p.setCall t call).own = Function.update p.own (some t) call.held := by
  funext o
  rcases o with _ | t'
  · rfl
  · by_cases ht : t' = t
    · rw [ht, Function.update_self]
      simp [own, setCall]
    · rw [Function.update_of_ne (by simpa using ht)]
      simp [own, setCall, ht]

theorem own_setLeases (p : Pool τ η) (leases : List (ConnID × η)) :
    own { p with leases } = Function.update p.own none (leases.map Prod.snd) := by
  funext o
  rcases o with _ | t <;> rfl

/-- A lease that is deleted hands over its handle. -/
theorem delete_subperm {c : ConnID} {h : η} : ∀ {leases : List (ConnID × η)}, leases.lookup c = some h →
    ((delete leases c).map Prod.snd ++ [h]).Subperm (leases.map Prod.snd)
  | (c', h') :: leases, hl => by
    by_cases hc : c = c'
    · subst hc
      have hh : h' = h := by simpa using hl
      have hrest : ((delete leases c).map Prod.snd).Subperm (leases.map Prod.snd) :=
        (List.filter_sublist.map Prod.snd).subperm
      have hcons := (List.subperm_cons h).mpr hrest
      rw [hh]
      simpa [delete] using (List.perm_append_singleton h _).subperm_right.mpr hcons
    · have hne : (c == c') = false := by simpa using hc
      rw [List.lookup_cons, hne] at hl
      have ih := (List.subperm_cons h').mpr (delete_subperm hl)
      simpa [delete, Ne.symm hc] using ih

/-- The handle of a lease is among the handles of the leases. -/
theorem mem_of_lookup {c : ConnID} {x : η} : ∀ {leases : List (ConnID × η)}, leases.lookup c = some x → (c, x) ∈ leases
  | (c', x') :: leases, hl => by
    by_cases hc : c = c'
    · subst hc
      have hx : x' = x := by simpa using hl
      rw [hx]
      exact List.mem_cons_self
    · have hne : (c == c') = false := by simpa using hc
      rw [List.lookup_cons, hne] at hl
      exact List.mem_cons_of_mem _ (mem_of_lookup hl)

/-- The goroutine goes on with what it holds, or with less. -/
theorem Inv.setCall (h : Inv p) {call : Call η} (hsub : call.held.Sublist (p.calls t).held) :
    Inv (p.setCall t call) := by
  refine ⟨?_, h.history⟩
  rw [own_setCall]
  apply h.exclusive.set (some t) (hsub.nodup (h.exclusive.nodup (some t)))
  · exact fun x hx => h.exclusive.inUse (some t) (hsub.subset hx)
  · exact fun x hx o ho hxo => ho (h.exclusive.owner hxo (hsub.subset hx))

/-- Handles go from the leases to a goroutine. -/
theorem Inv.takeLeases (h : Inv p) {leases : List (ConnID × η)} {call : Call η} (closed : Bool)
    (hsub : (leases.map Prod.snd ++ call.held).Subperm (p.leases.map Prod.snd)) :
    Inv (Pool.setCall { p with leases, closed } t call) := by
  refine ⟨?_, h.history⟩
  rw [own_setCall]
  change Ownership.Exclusive (Function.update (own { p with leases }) _ _) _
  rw [own_setLeases]
  exact h.exclusive.transfer hsub

/-- `leases[conn] = h`. -/
theorem Inv.install (h : Inv p) {c : ConnID} {x : η} (hcall : p.calls t = .installing c x) :
    Inv (Pool.setCall { p with leases := (c, x) :: p.leases } t .idle) := by
  refine ⟨?_, h.history⟩
  have hone : p.own (some t) = [x] := by
    rw [own, hcall]
    rfl
  have hmoved := h.exclusive.deposit (Option.some_ne_none t) hone
  rw [Function.update_comm (Option.some_ne_none t)] at hmoved
  rw [own_setCall, own_setLeases]
  exact hmoved

theorem Inv.acquired (h : Inv p) {c : ConnID} {x : η} (hx : x ∉ p.out) :
    Inv (Pool.setCall { p with out := x :: p.out, acquired := p.acquired ++ [x] } t (.installing c x)) := by
  refine ⟨?_, ?_⟩
  · rw [own_setCall]
    exact h.exclusive.acquire (some t) hx
  · calc (p.acquired ++ [x]).Perm (x :: p.acquired) := List.perm_append_singleton x _
      _ |>.Perm (x :: (p.released ++ p.out)) := h.history.cons x
      _ |>.Perm (p.released ++ x :: p.out) := List.perm_middle.symm

variable [DecidableEq η]

/-- A goroutine releases one of its handles. -/
theorem Inv.releaseHandle (h : Inv p) {x : η} {call : Call η} (hperm : (p.calls t).held.Perm (x :: call.held)) :
    Inv ((p.releaseHandle x).setCall t call) := by
  have hx : x ∈ p.out := h.exclusive.inUse (some t) (hperm.mem_iff.mpr List.mem_cons_self)
  refine ⟨?_, ?_⟩
  · rw [own_setCall]
    exact h.exclusive.release hperm
  · calc p.acquired.Perm (p.released ++ p.out) := h.history
      _ |>.Perm (p.released ++ x :: p.out.erase x) := (List.perm_cons_erase hx).append_left _
      _ |>.Perm (p.released ++ [x] ++ p.out.erase x) := by rw [List.append_assoc]; rfl

/-- When a `Ping` fails, the lease still has the handle that was pinged. -/
def undisturbed (p : Pool τ η) : Act τ η → Bool
  | .pinged t ok =>
    match p.calls t with
    | .pinging c existing => ok || p.leases.lookup c = some existing
    | _ => true
  | _ => true

/-- This holds at every action of the run. -/
def undisturbedRun : Pool τ η → List (Act τ η) → Bool
  | _, [] => true
  | p, a :: acts => p.undisturbed a && undisturbedRun (p.step a) acts

theorem Inv.pinged (h : Inv p) {ok : Bool} (hgood : p.undisturbed (.pinged t ok) = true) :
    Inv (p.step (.pinged t ok)) := by
  dsimp only [step, undisturbed] at hgood ⊢
  rcases hcall : p.calls t with _ | ⟨c, existing⟩ | _ | _ | _ | _ | _ <;> try exact h
  rw [hcall] at hgood
  rcases ok with _ | _
  · have hlease : p.leases.lookup c = some existing := by simpa using hgood
    dsimp only
    rw [if_neg Bool.false_ne_true, if_pos hlease]
    exact h.takeLeases p.closed (delete_subperm hlease)
  · dsimp only
    rw [if_pos rfl]
    split_ifs <;> exact h.setCall (List.nil_sublist _)

/-- **The step.** -/
theorem Inv.step (h : Inv p) {a : Act τ η} (hgood : p.undisturbed a = true) : Inv (p.step a) := by
  rcases a with ⟨t, c⟩ | ⟨t, ok⟩ | ⟨t, res⟩ | t | ⟨t, c⟩ | t | ⟨t, i⟩ | t
  case pinged => exact h.pinged hgood
  all_goals dsimp only [Pool.step]
  case acquireFor =>
    split
    · split_ifs
      · exact h
      all_goals split <;> exact h.setCall (List.nil_sublist _)
    · exact h
  case acquired =>
    split
    · split_ifs with hx
      · exact h
      · exact h.acquired hx
    · exact h.setCall (List.nil_sublist _)
    · exact h
  case install =>
    split
    · rename_i c x hcall
      have hkeep : ∀ call : Call η, call.held = [x] → Inv (p.setCall t call) := by
        intro call hheld
        apply h.setCall
        rw [hcall, hheld]
        exact List.Sublist.refl _
      split_ifs
      · exact hkeep _ rfl
      · exact hkeep _ rfl
      · split
        · exact hkeep _ rfl
        · exact h.install hcall
    · exact h
  case release =>
    split
    · rename_i x _ hlease
      exact h.takeLeases p.closed (delete_subperm hlease)
    · exact h
  case close =>
    split
    · split_ifs
      · exact h
      · exact h.takeLeases true (List.Subperm.refl _)
    · exact h
  case releaseOne =>
    split
    · rename_i c x again hcall
      apply h.releaseHandle
      rw [hcall]
      rcases again with _ | _ <;> exact List.Perm.refl _
    · rename_i x hcall
      apply h.releaseHandle
      rw [hcall]
      exact List.Perm.refl _
    · rename_i hs hcall
      split
      · rename_i x hx
        apply h.releaseHandle
        rw [hcall]
        obtain ⟨hi, rfl⟩ := List.getElem?_eq_some_iff.mp hx
        exact (List.getElem_cons_eraseIdx_perm hi).symm
      · exact h
    · exact h
  case closeSource =>
    split_ifs
    · exact h.setCall (List.nil_sublist _)
    · exact h

theorem Inv.run : ∀ {acts : List (Act τ η)} {p : Pool τ η}, Inv p → undisturbedRun p acts = true → Inv (p.run acts)
  | [], _, h, _ => h
  | a :: acts, p, h, hgood => by
    obtain ⟨ha, hacts⟩ := Bool.and_eq_true_iff.mp hgood
    exact (h.step ha).run hacts

/-- **Released once.** In every run in which no failing `Ping` finds its lease
taken away, no handle is released more often than it was acquired, and no two
connections have it leased. -/
theorem released_once (sessionAffinity : Bool) (acts : List (Act τ η))
    (hgood : undisturbedRun { sessionAffinity } acts = true) :
    let p := run { sessionAffinity } acts
    (∀ h, p.released.count h ≤ p.acquired.count h) ∧
      ∀ c c' h, p.leases.lookup c = some h → p.leases.lookup c' = some h → c = c' := by
  intro p
  have hinv : Inv p := (inv_new sessionAffinity).run hgood
  refine ⟨fun h => ?_, fun c c' h hc hc' => ?_⟩
  · calc p.released.count h ≤ (p.released ++ p.out).count h := (List.sublist_append_left _ _).count_le h
      _ = p.acquired.count h := (hinv.history.count_eq h).symm
  · have hnodup : (p.leases.map Prod.snd).Nodup := hinv.exclusive.nodup none
    have heq := List.inj_on_of_nodup_map hnodup (mem_of_lookup hc) (mem_of_lookup hc') rfl
    exact congrArg Prod.fst heq

end Own

/-- Two connections. -/
def connA : ConnID := ⟨.v4 0x0a000001, 5000, .v4 0x0a0000ff, 5432⟩

def connB : ConnID := { connA with srcPort := 5001 }

/-- The goroutine `t` leases the handle `h` for the connection. -/
def lease (t : ℕ) (conn : ConnID) (h : ℕ) : List (Act ℕ ℕ) := [.acquireFor t conn, .acquired t (some h), .install t]

/-- A lease is found dead and replaced, and its handle goes to another connection. -/
theorem released_once_replaced :
    let acts := lease 0 connA 7 ++
      [.acquireFor 0 connA, .pinged 0 false, .releaseOne 0 0, .acquired 0 (some 8), .install 0] ++ lease 1 connB 7
    let p := run ({ sessionAffinity := true } : Pool ℕ ℕ) acts
    p.leases = [(connB, 7), (connA, 8)] ∧ p.acquired = [7, 8, 7] ∧ p.released = [7] ∧
      ∀ h, p.released.count h ≤ p.acquired.count h := by
  refine ⟨by decide +kernel, by decide +kernel, by decide +kernel, ?_⟩
  exact (released_once true _ (by decide +kernel)).1

/-- **Counterexample**: while a goroutine pings the handle leased for a connection,
another calls `release` for the connection; then the `Ping` fails. The handle is
released twice. If the source has handed it to a second connection in between, the
second release frees that connection's handle, and the two connections end up
with the same one. -/
theorem released_twice :
    let disturbed := lease 0 connA 7 ++ [.acquireFor 0 connA, .release 1 connA, .releaseOne 1 0]
    let p := run ({} : Pool ℕ ℕ) (disturbed ++ [.pinged 0 false, .releaseOne 0 0])
    let q := run ({} : Pool ℕ ℕ) (disturbed ++ lease 1 connB 7 ++
      [.pinged 0 false, .releaseOne 0 0, .acquired 0 (some 7), .install 0])
    p.acquired = [7] ∧ p.released = [7, 7] ∧ q.leases = [(connA, 7), (connB, 7)] := by
  decide +kernel

end Pool
end PgShadow
