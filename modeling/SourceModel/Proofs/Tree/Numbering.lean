import SourceModel.Tree

/-!
# Numbers of nodes

A node is found by its number at that place of the pre-order. A change of one node that keeps its
children keeps the pre-order, up to the entry of the node.
-/

namespace SourceModel.Tree

/-- What the nodes of a tree say about themselves, in pre-order. -/
def datas (t : Tree) : List NodeData := t.preorder.map Tree.data

def datasAmong (ts : List Tree) : List NodeData := (preorders ts).map Tree.data

@[simp] theorem datas_node (data : NodeData) (children : List Tree) (foreign : Option Tree) :
    (Tree.node data children foreign).datas = data :: datasAmong children := by
  simp [datas, datasAmong, preorder, Tree.data]

@[simp] theorem datasAmong_nil : datasAmong [] = [] := rfl

@[simp] theorem datasAmong_cons (t : Tree) (ts : List Tree) :
    datasAmong (t :: ts) = t.datas ++ datasAmong ts := by
  simp [datas, datasAmong, preorders]

theorem preorder_eq (t : Tree) : t.preorder = t :: preorders t.children := by
  cases t
  rw [preorder, children]

theorem preorders_append (ts us : List Tree) :
    preorders (ts ++ us) = preorders ts ++ preorders us := by
  induction ts with
  | nil => rfl
  | cons t ts ih => simp only [List.cons_append, preorders, ih, List.append_assoc]

theorem mem_preorders {u : Tree} {ts : List Tree} :
    u ∈ preorders ts ↔ ∃ t ∈ ts, u ∈ t.preorder := by
  induction ts with
  | nil => simp [preorders]
  | cons t ts ih => simp only [preorders, List.mem_append, ih, List.mem_cons, exists_eq_or_imp]

theorem forall_mem_preorders {P : Tree → Prop} {ts : List Tree} :
    (∀ u ∈ preorders ts, P u) ↔ ∀ t ∈ ts, ∀ u ∈ t.preorder, P u := by
  simp only [mem_preorders]
  exact ⟨fun h t ht u hu => h u ⟨t, ht, hu⟩, fun h u ⟨t, ht, hu⟩ => h t ht u hu⟩

mutual
theorem length_preorder : ∀ t : Tree, t.preorder.length = t.size
  | .node data children foreign => by
    simp only [preorder, size, List.length_cons, length_preorders children]
    omega

theorem length_preorders : ∀ ts : List Tree, (preorders ts).length = sizes ts
  | [] => rfl
  | t :: ts => by
    simp only [preorders, sizes, List.length_append, length_preorder t, length_preorders ts]
end

@[simp] theorem length_datas (t : Tree) : t.datas.length = t.size := by
  rw [datas, List.length_map, length_preorder]

@[simp] theorem length_datasAmong (ts : List Tree) : (datasAmong ts).length = sizes ts := by
  rw [datasAmong, List.length_map, length_preorders]

mutual
/-- Nodes are numbered in pre-order. -/
theorem get?_eq_getElem? : ∀ (id : Nat) (t : Tree), t.get? id = t.preorder[id]?
  | 0, .node data children foreign => by simp [get?, preorder]
  | id + 1, .node data children foreign => by
    simp only [get?, preorder, List.getElem?_cons_succ]
    exact getAmong?_eq_getElem? id children

private theorem getAmong?_eq_getElem? : ∀ (id : Nat) (ts : List Tree),
    getAmong? id ts = (preorders ts)[id]?
  | _, [] => by simp [getAmong?, preorders]
  | id, t :: ts => by
    rw [getAmong?, preorders]
    split
    · rename_i h
      rw [get?_eq_getElem? id t, List.getElem?_append_left (by rwa [length_preorder])]
    · rename_i h
      rw [getAmong?_eq_getElem? (id - t.size) ts,
        List.getElem?_append_right (by rw [length_preorder]; omega), length_preorder]
end

theorem get?_zero (t : Tree) : t.get? 0 = some t := by
  rw [get?]

theorem map_data_get? (id : Nat) (t : Tree) : (t.get? id).map Tree.data = t.datas[id]? := by
  rw [get?_eq_getElem?, datas, List.getElem?_map]

theorem exists_get? {id : Nat} {t : Tree} {data : NodeData} (h : t.datas[id]? = some data) :
    ∃ u, t.get? id = some u ∧ u.data = data := by
  rw [← map_data_get?] at h
  exact Option.map_eq_some_iff.1 h

section Members

variable {id : Nat} {t u : Tree}

theorem mem_preorder_self (t : Tree) : t ∈ t.preorder := by
  cases t
  exact List.mem_cons_self

theorem mem_preorder_of_child (h : u ∈ t.children) : u ∈ t.preorder := by
  obtain ⟨data, children, foreign⟩ := t
  rw [preorder]
  apply List.mem_cons_of_mem
  obtain ⟨before, behind, rfl⟩ := List.append_of_mem h
  rw [preorders_append, preorders]
  exact List.mem_append_right _ (List.mem_append_left _ u.mem_preorder_self)

mutual
theorem mem_preorder_trans : ∀ {t u v : Tree}, u ∈ t.preorder → v ∈ u.preorder → v ∈ t.preorder
  | .node data children foreign, u, v, hu, hv => by
    rw [preorder] at hu
    rcases List.mem_cons.1 hu with rfl | hu
    · exact hv
    · rw [preorder]
      exact List.mem_cons_of_mem _ (mem_preorders_trans hu hv)

private theorem mem_preorders_trans : ∀ {ts : List Tree} {u v : Tree},
    u ∈ preorders ts → v ∈ u.preorder → v ∈ preorders ts
  | t :: ts, u, v, hu, hv => by
    rw [preorders] at hu ⊢
    rcases List.mem_append.1 hu with hu | hu
    · exact List.mem_append_left _ (mem_preorder_trans hu hv)
    · exact List.mem_append_right _ (mem_preorders_trans hu hv)
end

theorem exists_get?_of_mem (h : u ∈ t.preorder) : ∃ i, t.get? i = some u := by
  obtain ⟨i, hi⟩ := List.mem_iff_getElem?.1 h
  exact ⟨i, by rw [get?_eq_getElem?, hi]⟩

theorem mem_of_get? (h : t.get? id = some u) : u ∈ t.preorder := by
  rw [get?_eq_getElem?] at h
  exact List.mem_of_getElem? h

end Members

section Modify

private theorem modify_append {α : Type} (g : α → α) (as bs : List α) (i : Nat) :
    (as ++ bs).modify i g =
      if i < as.length then as.modify i g ++ bs else as ++ bs.modify (i - as.length) g := by
  induction as generalizing i with
  | nil => simp
  | cons a as ih =>
    cases i with
    | zero => simp
    | succ i =>
      simp only [List.cons_append, List.modify_succ_cons, ih, List.length_cons,
        Nat.add_lt_add_iff_right, Nat.add_sub_add_right]
      split <;> rfl

variable {α : Type} {above : NodeData → NodeData} {f : Tree → Tree} {p : Tree → α} {g : α → α}

mutual
/-- Of something that a node has apart from its children, and that a change of a node below leaves,
a change of one node that keeps its children changes one entry. -/
theorem map_preorder_modify (hc : ∀ t, (f t).children = t.children) (hf : ∀ t, p (f t) = g (p t))
    (ha : ∀ data children children' foreign,
      p (.node (above data) children' foreign) = p (.node data children foreign)) :
    ∀ (id : Nat) (t : Tree), (t.modify above f id).preorder.map p = (t.preorder.map p).modify id g
  | 0, t => by
    rw [modify, preorder_eq, preorder_eq t, hc, List.map_cons, List.map_cons, hf,
      List.modify_zero_cons]
  | id + 1, .node data children foreign => by
    rw [modify, preorder, preorder, List.map_cons, List.map_cons, List.modify_succ_cons,
      map_preorders_modify hc hf ha id children, ha]

theorem map_preorders_modify (hc : ∀ t, (f t).children = t.children) (hf : ∀ t, p (f t) = g (p t))
    (ha : ∀ data children children' foreign,
      p (.node (above data) children' foreign) = p (.node data children foreign)) :
    ∀ (id : Nat) (ts : List Tree),
      (preorders (modifyAmong above f id ts)).map p = ((preorders ts).map p).modify id g
  | _, [] => by simp [modifyAmong, preorders]
  | id, t :: ts => by
    rw [modifyAmong, preorders, List.map_append, modify_append, List.length_map, length_preorder]
    split
    · rw [preorders, List.map_append, map_preorder_modify hc hf ha id t]
    · rw [preorders, List.map_append, map_preorders_modify hc hf ha (id - t.size) ts]
end

theorem datas_modify {g : NodeData → NodeData} (hc : ∀ t, (f t).children = t.children)
    (hd : ∀ t, (f t).data = g t.data) (id : Nat) (t : Tree) :
    (t.modify (fun above => above) f id).datas = t.datas.modify id g :=
  map_preorder_modify hc hd (fun _ _ _ _ => rfl) id t

end Modify

end SourceModel.Tree
