/-
# Resources with one owner

Owners hold lists of resources; `out` are the resources in use. Ownership is
exclusive if nobody holds a resource twice, no two hold the same one, and what is
held is in use. The rules below say how an operation keeps that: an owner's list
is replaced (`set`), an owner hands resources to another (`transfer`, `deposit`),
a resource comes into use (`acquire`) or goes out of use (`release`).

Key definitions: `Exclusive`.
Key theorems: `Exclusive.transfer`, `Exclusive.acquire`, `Exclusive.release`.
-/
import Mathlib.Data.List.Perm.Subperm
import Mathlib.Data.List.Nodup
import Mathlib.Logic.Function.Basic

namespace Ownership

variable {O α : Type*}

/-- Nobody holds a resource twice, no two the same, and none that is not in use. -/
structure Exclusive (own : O → List α) (out : List α) : Prop where
  once : out.Nodup
  nodup : ∀ o, (own o).Nodup
  owner : ∀ {x o o'}, x ∈ own o → x ∈ own o' → o = o'
  inUse : ∀ o, own o ⊆ out

namespace Exclusive

variable [DecidableEq O] {own : O → List α} {out : List α} {o o' : O} {l l' : List α} {x : α}

theorem set (h : Exclusive own out) (o : O) (hnd : l.Nodup) (hout : l ⊆ out)
    (hfree : ∀ x ∈ l, ∀ o', o' ≠ o → x ∉ own o') : Exclusive (Function.update own o l) out where
  once := h.once
  nodup o' := by
    by_cases ho : o' = o
    · rw [ho, Function.update_self]
      exact hnd
    · rw [Function.update_of_ne ho]
      exact h.nodup o'
  owner {x a b} ha hb := by
    by_cases hao : a = o <;> by_cases hbo : b = o
    · rw [hao, hbo]
    · rw [hao, Function.update_self] at ha
      rw [Function.update_of_ne hbo] at hb
      exact absurd hb (hfree x ha b hbo)
    · rw [hbo, Function.update_self] at hb
      rw [Function.update_of_ne hao] at ha
      exact absurd ha (hfree x hb a hao)
    · rw [Function.update_of_ne hao] at ha
      rw [Function.update_of_ne hbo] at hb
      exact h.owner ha hb
  inUse o' := by
    by_cases ho : o' = o
    · rw [ho, Function.update_self]
      exact hout
    · rw [Function.update_of_ne ho]
      exact h.inUse o'

/-- **Handing over.** The owner `o` keeps `l`, and `o'` now holds `l'`. -/
theorem transfer (h : Exclusive own out) (hsub : (l ++ l').Subperm (own o)) :
    Exclusive (Function.update (Function.update own o l) o' l') out := by
  have hnd : (l ++ l').Nodup := by
    obtain ⟨m, hperm, hm⟩ := hsub
    exact hperm.nodup (hm.nodup (h.nodup o))
  obtain ⟨hl, hl', hdisj⟩ := List.nodup_append.mp hnd
  have hmem : ∀ x ∈ l ++ l', x ∈ own o := fun x hx => hsub.subset hx
  have hfree : ∀ x ∈ l ++ l', ∀ a, a ≠ o → x ∉ own a := fun x hx a ha hxa => ha (h.owner hxa (hmem x hx))
  have hkept := h.set o hl (fun x hx => h.inUse o (hmem x (List.mem_append_left _ hx)))
    fun x hx => hfree x (List.mem_append_left _ hx)
  apply hkept.set o' hl'
  · exact fun x hx => h.inUse o (hmem x (List.mem_append_right _ hx))
  · intro x hx a ha
    by_cases hao : a = o
    · rw [hao, Function.update_self]
      exact fun hxl => hdisj x hxl x hx rfl
    · rw [Function.update_of_ne hao]
      exact hfree x (List.mem_append_right _ hx) a hao

/-- The owner `o` adds its one resource to those of `o'`. -/
theorem deposit (h : Exclusive own out) (hne : o ≠ o') (hone : own o = [x]) :
    Exclusive (Function.update (Function.update own o []) o' (x :: own o')) out := by
  have hx : x ∈ own o := by
    rw [hone]
    exact List.mem_singleton_self x
  have hgone := h.set o List.nodup_nil (List.nil_subset _) (fun y hy => absurd hy List.not_mem_nil)
  apply hgone.set o'
  · exact List.nodup_cons.mpr ⟨fun hx' => hne (h.owner hx hx'), h.nodup o'⟩
  · exact List.cons_subset.mpr ⟨h.inUse o hx, h.inUse o'⟩
  · intro y hy a ha hya
    by_cases hao : a = o
    · rw [hao, Function.update_self] at hya
      exact List.not_mem_nil hya
    · rw [Function.update_of_ne hao] at hya
      rcases List.mem_cons.mp hy with rfl | hy
      · exact hao (h.owner hya hx)
      · exact ha (h.owner hya hy)

/-- A resource comes into use, in the hands of `o`. -/
theorem acquire (h : Exclusive own out) (o : O) (hx : x ∉ out) :
    Exclusive (Function.update own o [x]) (x :: out) := by
  have hgrown : Exclusive own (x :: out) :=
    ⟨List.nodup_cons.mpr ⟨hx, h.once⟩, h.nodup, h.owner, fun o => List.subset_cons_of_subset x (h.inUse o)⟩
  apply hgrown.set o (List.nodup_singleton x)
  · simp
  · intro y hy a _ hya
    rw [List.mem_singleton.mp hy] at hya
    exact hx (h.inUse a hya)

/-- **Going out of use**, from the hands of `o`, who keeps `l`. -/
theorem release [DecidableEq α] (h : Exclusive own out) (hperm : (own o).Perm (x :: l)) :
    Exclusive (Function.update own o l) (out.erase x) := by
  have hnd : (x :: l).Nodup := hperm.nodup (h.nodup o)
  have hkept := h.set o (List.nodup_cons.mp hnd).2
    (fun y hy => h.inUse o (hperm.mem_iff.mpr (List.mem_cons_of_mem x hy)))
    fun y hy a ha hya => ha (h.owner hya (hperm.mem_iff.mpr (List.mem_cons_of_mem x hy)))
  refine ⟨h.once.erase x, hkept.nodup, hkept.owner, fun a y hy => ?_⟩
  apply (List.mem_erase_of_ne ?_).mpr (hkept.inUse a hy)
  rintro rfl
  by_cases ha : a = o
  · rw [ha, Function.update_self] at hy
    exact (List.nodup_cons.mp hnd).1 hy
  · rw [Function.update_of_ne ha] at hy
    exact ha (h.owner hy (hperm.mem_iff.mpr List.mem_cons_self))

end Exclusive
end Ownership
