import Mathlib.Data.List.Nodup
import SourceModel.Proofs.Outline.Nesting

/-!
# Outlines in preorder

An element and all those below it are listed by what stands above them: the list from an element on
has that element and all elements that it stands above, each of them once. So the list from the
unit on has all elements, whatever their numbers are, as an element may be added below any earlier
one. A walk that replaces each element by its children meets them in this order.
-/

namespace SourceModel.Outline

variable {o : Outline} {i j k : Nat}

/-! ## Elements above one another -/

private theorem mem_above_trans (hik : i ∈ o.above k) (hkj : k ∈ o.above j) : i ∈ o.above j := by
  induction j using Nat.strongRecOn with
  | _ j ih =>
    obtain ⟨p, hp, hkp⟩ := mem_above_iff.1 hkj
    refine mem_above_iff.2 ⟨p, hp, .inr ?_⟩
    rcases hkp with rfl | hkp
    · exact hik
    · exact ih p (lt_of_parentOf? hp) hkp

private theorem depthOf_of_mem_childrenOf (h : j ∈ o.childrenOf i) :
    o.depthOf j = o.depthOf i + 1 := by
  rw [depthOf, above_of_mem_childrenOf h, List.length_cons, depthOf]

private theorem child_above_unique {a b : Nat} (ha : a ∈ o.childrenOf i) (hb : b ∈ o.childrenOf i)
    (haj : j = a ∨ a ∈ o.above j) (hbj : j = b ∨ b ∈ o.above j) : a = b := by
  have hdepth : o.depthOf a = o.depthOf b := by
    rw [depthOf_of_mem_childrenOf ha, depthOf_of_mem_childrenOf hb]
  induction j using Nat.strongRecOn with
  | _ j ih =>
    rcases haj with rfl | haj <;> rcases hbj with hbj | hbj
    · exact hbj
    · have hlt := depthOf_lt_of_mem_above hbj
      omega
    · subst hbj
      have hlt := depthOf_lt_of_mem_above haj
      omega
    · obtain ⟨p, hp, hap⟩ := mem_above_iff.1 haj
      obtain ⟨q, hq, hbq⟩ := mem_above_iff.1 hbj
      rw [hp, Option.some.injEq] at hq
      subst hq
      exact ih p (lt_of_parentOf? hp) (hap.imp_left Eq.symm) (hbq.imp_left Eq.symm)

/-! ## The list from an element on -/

private theorem mem_preorderFrom : j ∈ o.preorderFrom i ↔ j = i ∨ i ∈ o.above j := by
  induction i using preorderFrom.induct o with
  | case1 i ih =>
    rw [preorderFrom_eq, List.mem_cons, List.mem_flatMap]
    refine or_congr_right ⟨?_, fun hij => ?_⟩
    · rintro ⟨k, hk, hjk⟩
      have hik : i ∈ o.above k := by
        rw [above_of_mem_childrenOf hk]
        exact List.mem_cons_self
      rcases (ih k hk).1 hjk with rfl | hkj
      · exact hik
      · exact mem_above_trans hik hkj
    · obtain ⟨k, hk, hkj⟩ := exists_child_of_mem_above hij
      exact ⟨k, hk, (ih k hk).2 (hkj.imp_left Eq.symm)⟩

private theorem nodup_preorderFrom (o : Outline) (i : Nat) : (o.preorderFrom i).Nodup := by
  induction i using preorderFrom.induct o with
  | case1 i ih =>
    rw [preorderFrom_eq, List.nodup_cons, List.nodup_flatMap]
    refine ⟨?_, ih, (o.pairwise_lt_childrenOf i).imp_of_mem ?_⟩
    · intro hi
      obtain ⟨k, hk, hik⟩ := List.mem_flatMap.1 hi
      have hlt := (lt_of_mem_childrenOf hk).1
      rcases mem_preorderFrom.1 hik with rfl | hki
      · exact Nat.lt_irrefl i hlt
      · have hdepth := depthOf_lt_of_mem_above hki
        rw [depthOf_of_mem_childrenOf hk] at hdepth
        omega
    · intro a b ha hb hab j hja hjb
      exact Nat.ne_of_lt hab
        (child_above_unique ha hb (mem_preorderFrom.1 hja) (mem_preorderFrom.1 hjb))

theorem Nested.perm_preorder (h : o.Nested) : o.preorder.Perm (List.range o.size) := by
  refine (List.perm_ext_iff_of_nodup (o.nodup_preorderFrom 0) List.nodup_range).2 fun j => ?_
  rw [mem_preorderFrom, List.mem_range]
  constructor
  · rintro (rfl | h0)
    · exact h.size_pos
    · obtain ⟨p, hp, -⟩ := mem_above_iff.1 h0
      exact lt_size_of_parentOf? hp
  · intro hj
    exact (h.eq_zero_or_mem_above hj).imp_left Eq.symm

/-! ## Walks -/

/-- Behind each element that waits, a walk meets those below it. -/
theorem visitFrom_eq (o : Outline) (pending : List Nat) :
    o.visitFrom pending = pending.flatMap o.preorderFrom := by
  induction pending using visitFrom.induct o with
  | case1 => rw [visitFrom, List.flatMap_nil]
  | case2 i pending ih =>
    rw [visitFrom, ih, List.flatMap_cons, preorderFrom_eq o i, List.flatMap_append,
      List.cons_append]

theorem visit_eq_preorder (o : Outline) : o.visit = o.preorder := by
  rw [visit, visitFrom_eq, List.flatMap_singleton, preorder]

end SourceModel.Outline
