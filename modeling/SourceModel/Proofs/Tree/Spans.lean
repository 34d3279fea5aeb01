import SourceModel.Proofs.Tree.Refusals

/-!
# Spans of nodes

In pre-order a node and the nodes below it have numbers without a gap: a node spans the numbers
from its own one on, as many as it has nodes from there down. So the span tells which nodes lie
above a number, and a change of one node changes what its own span and those around it say.
-/

namespace SourceModel

/-- The number of a node, how many nodes there are from it down, and what it says about itself. -/
structure Span where
  id : Nat
  size : Nat
  data : NodeData

def Ast.Node.span (n : Ast.Node) : Span := ⟨n.id, n.tree.size, n.tree.data⟩

namespace Span

def Over (e : Span) (id : Nat) : Prop := e.id < id ∧ id < e.id + e.size

instance (e : Span) (id : Nat) : Decidable (e.Over id) := inferInstanceAs (Decidable (_ ∧ _))

/-- The span behind a change of what the node with number `id` says, and the nodes over it. -/
def change (above f : NodeData → NodeData) (id : Nat) (e : Span) : Span where
  id := e.id
  size := e.size
  data := if e.id = id then f e.data else if e.Over id then above e.data else e.data

variable {above f : NodeData → NodeData} {id : Nat} {e : Span} {es : List Span}

private theorem change_of_behind (h : id < e.id) : e.change above f id = e := by
  have hover : ¬ e.Over id := fun hover => absurd hover.1 (by omega)
  simp only [change, if_neg (Nat.ne_of_gt h), if_neg hover]

private theorem change_of_before (h : e.id + e.size ≤ id) (hpos : 0 < e.size) :
    e.change above f id = e := by
  have hover : ¬ e.Over id := fun hover => absurd hover.2 (by omega)
  simp only [change, if_neg (show ¬ e.id = id by omega), if_neg hover]

private theorem map_change_eq_self (h : ∀ e ∈ es, e.change above f id = e) :
    es.map (change above f id) = es := by
  rw [List.map_congr_left h, List.map_id']

end Span

namespace Tree

mutual
/-- The spans of a tree whose root has number `id`. -/
def spansFrom (id : Nat) : Tree → List Span
  | .node data children _ => ⟨id, 1 + sizes children, data⟩ :: spansAmong (id + 1) children

/-- The spans of trees that are numbered one after the other from `id` on. -/
def spansAmong (id : Nat) : List Tree → List Span
  | [] => []
  | t :: ts => t.spansFrom id ++ spansAmong (id + t.size) ts
end

section Spans

variable {id : Nat} {t : Tree} {ts us : List Tree} {e : Span}

mutual
theorem map_span_nodesFrom : ∀ (id : Nat) (ancestors : List Nat) (t : Tree),
    (t.nodesFrom id ancestors).map Ast.Node.span = t.spansFrom id
  | id, ancestors, .node data children foreign => by
    rw [nodesFrom, List.map_cons, map_span_nodesAmong, spansFrom]
    rfl

theorem map_span_nodesAmong : ∀ (id : Nat) (ancestors : List Nat) (ts : List Tree),
    (nodesAmong id ancestors ts).map Ast.Node.span = spansAmong id ts
  | _, _, [] => rfl
  | id, ancestors, t :: ts => by
    rw [nodesAmong, List.map_append, map_span_nodesFrom, map_span_nodesAmong, spansAmong]
end

private theorem spansAmong_append (id : Nat) (ts us : List Tree) :
    spansAmong id (ts ++ us) = spansAmong id ts ++ spansAmong (id + sizes ts) us := by
  induction ts generalizing id with
  | nil => simp [spansAmong, sizes]
  | cons t ts ih =>
    simp only [List.cons_append, spansAmong, ih, sizes, List.append_assoc, Nat.add_assoc]

mutual
theorem span_bounds : ∀ {id : Nat} {t : Tree} {e : Span}, e ∈ t.spansFrom id →
    id ≤ e.id ∧ e.id + e.size ≤ id + t.size ∧ 0 < e.size
  | id, .node data children foreign, e, h => by
    rw [spansFrom] at h
    rw [size]
    rcases List.mem_cons.1 h with rfl | h
    · exact ⟨Nat.le_refl _, Nat.le_refl _, by simp only; omega⟩
    · have hbounds := span_bounds_among h
      omega

theorem span_bounds_among : ∀ {id : Nat} {ts : List Tree} {e : Span}, e ∈ spansAmong id ts →
    id ≤ e.id ∧ e.id + e.size ≤ id + sizes ts ∧ 0 < e.size
  | id, t :: ts, e, h => by
    rw [spansAmong] at h
    rw [sizes]
    rcases List.mem_append.1 h with h | h
    · have hbounds := span_bounds h
      omega
    · have hbounds := span_bounds_among h
      omega
end

mutual
/-- A node is over the numbers of the nodes that it is above. -/
theorem over_iff : ∀ {id : Nat} {ancestors : List Nat} {t : Tree} {n : Ast.Node} {e : Span},
    n ∈ t.nodesFrom id ancestors → e ∈ t.spansFrom id → (∀ i ∈ ancestors, i < id) →
      (e.Over n.id ↔ e.id ∈ n.ancestors)
  | id, ancestors, .node data children foreign, n, e, hn, he, hlt => by
    rw [nodesFrom] at hn
    rw [spansFrom] at he
    rcases List.mem_cons.1 hn with rfl | hn
    · have hle : id ≤ e.id := (span_bounds (t := .node data children foreign) he).1
      constructor
      · intro hover
        exact absurd hover.1 (Nat.not_lt_of_le hle)
      · intro hmem
        exact absurd (hlt _ hmem) (Nat.not_lt_of_le hle)
    · have hbounds := bounds_of_mem_nodesAmong hn
      rcases List.mem_cons.1 he with rfl | he
      · obtain ⟨inner, hinner, -⟩ := exists_ancestors_eq_among hn
        have hover : Span.Over ⟨id, 1 + sizes children, data⟩ n.id :=
          ⟨by simp only; omega, by simp only; omega⟩
        exact iff_of_true hover (by simp [hinner])
      · refine over_iff_among hn he ?_
        intro i hi
        rcases List.mem_cons.1 hi with rfl | hi
        · exact Nat.lt_succ_self _
        · exact Nat.lt_succ_of_lt (hlt i hi)

theorem over_iff_among :
    ∀ {id : Nat} {ancestors : List Nat} {ts : List Tree} {n : Ast.Node} {e : Span},
    n ∈ nodesAmong id ancestors ts → e ∈ spansAmong id ts → (∀ i ∈ ancestors, i < id) →
      (e.Over n.id ↔ e.id ∈ n.ancestors)
  | id, ancestors, t :: ts, n, e, hn, he, hlt => by
    rw [nodesAmong] at hn
    rw [spansAmong] at he
    rcases List.mem_append.1 hn with hn | hn <;> rcases List.mem_append.1 he with he | he
    · exact over_iff hn he hlt
    · have hid := (bounds_of_mem_nodesFrom hn).2
      have hle := (span_bounds_among he).1
      refine iff_of_false (fun hover => absurd hover.1 (by omega)) (fun hmem => ?_)
      exact absurd (lt_of_mem_ancestors hn hlt hmem) (by omega)
    · have hid := (bounds_of_mem_nodesAmong hn).1
      have hspan := span_bounds he
      refine iff_of_false (fun hover => absurd hover.2 (by omega)) (fun hmem => ?_)
      obtain ⟨inner, hinner, hbounds⟩ := exists_ancestors_eq_among hn
      rw [hinner] at hmem
      rcases List.mem_append.1 hmem with hmem | hmem
      · exact absurd (hbounds _ hmem).1 (by omega)
      · exact absurd (hlt _ hmem) (by omega)
    · refine over_iff_among hn he ?_
      intro i hi
      exact Nat.lt_add_right _ (hlt i hi)
end

theorem exists_span_of_mem (id : Nat) (h : t ∈ ts) : ∃ e ∈ spansAmong id ts, e.data = t.data := by
  induction ts generalizing id with
  | nil => cases h
  | cons u ts ih =>
    rw [spansAmong]
    rcases List.mem_cons.1 h with rfl | h
    · obtain ⟨data, children, foreign⟩ := t
      exact ⟨⟨id, 1 + sizes children, data⟩, by simp [spansFrom], rfl⟩
    · obtain ⟨e, he, hdata⟩ := ih (id + u.size) h
      exact ⟨e, List.mem_append_right _ he, hdata⟩

variable {above f : NodeData → NodeData}

private theorem sizes_modifyAmong (above f : NodeData → NodeData) (k : Nat) (ts : List Tree) :
    sizes (modifyAmong above (mapData f) k ts) = sizes ts := by
  have hmap : (preorders (modifyAmong above (mapData f) k ts)).map (fun _ => ()) =
      ((preorders ts).map fun _ => ()).modify k (fun u => u) :=
    map_preorders_modify (p := fun _ => ()) (g := fun u => u) (children_mapData f) (fun _ => rfl)
      (fun _ _ _ _ => rfl) k ts
  have hlength := congrArg List.length hmap
  simpa only [List.length_map, List.length_modify, length_preorders] using hlength

theorem size_modify (above f : NodeData → NodeData) (k : Nat) (t : Tree) :
    (t.modify above (mapData f) k).size = t.size := by
  obtain ⟨data, children, foreign⟩ := t
  cases k with
  | zero => rfl
  | succ k => rw [modify, size, size, sizes_modifyAmong]

private theorem spansAmong_change_behind {k : Nat} (h : k < id) :
    (spansAmong id ts).map (Span.change above f k) = spansAmong id ts :=
  Span.map_change_eq_self fun _ he =>
    Span.change_of_behind (Nat.lt_of_lt_of_le h (span_bounds_among he).1)

mutual
private theorem spansFrom_modify : ∀ (k id : Nat) (t : Tree), k < t.size →
    (t.modify above (mapData f) k).spansFrom id =
      (t.spansFrom id).map (Span.change above f (id + k))
  | 0, id, .node data children foreign, _ => by
    rw [modify, mapData, spansFrom, spansFrom, List.map_cons,
      spansAmong_change_behind (show id + 0 < id + 1 by omega)]
    simp [Span.change]
  | k + 1, id, .node data children foreign, h => by
    rw [size] at h
    have hover : Span.Over ⟨id, 1 + sizes children, data⟩ (id + (k + 1)) :=
      ⟨by simp only; omega, by simp only; omega⟩
    rw [modify, spansFrom, spansFrom, List.map_cons, sizes_modifyAmong,
      spansAmong_modifyAmong k (id + 1) children, show id + 1 + k = id + (k + 1) by omega]
    simp only [Span.change, if_pos hover, if_neg (show ¬ id = id + (k + 1) by omega)]

private theorem spansAmong_modifyAmong : ∀ (k id : Nat) (ts : List Tree),
    spansAmong id (modifyAmong above (mapData f) k ts) =
      (spansAmong id ts).map (Span.change above f (id + k))
  | _, _, [] => by simp [modifyAmong, spansAmong]
  | k, id, t :: ts => by
    rw [modifyAmong, spansAmong, List.map_append]
    split
    · rename_i hlt
      rw [spansAmong, size_modify, spansFrom_modify k id t hlt,
        spansAmong_change_behind (show id + k < id + t.size by omega)]
    · rename_i hge
      have hbefore : (t.spansFrom id).map (Span.change above f (id + k)) = t.spansFrom id :=
        Span.map_change_eq_self fun e he => by
          have hbounds := span_bounds he
          exact Span.change_of_before (by omega) hbounds.2.2
      rw [spansAmong, spansAmong_modifyAmong (k - t.size) (id + t.size) ts, hbefore,
        show id + t.size + (k - t.size) = id + k by omega]
end

end Spans

end Tree

/-! ## Spans of a builder -/

namespace TreeBuilder

open SourceModel.Tree (spansAmong span_bounds_among sizes)

/-- The spans of open nodes and of the finished ones below them. As long as a node is open, it
stands for itself only. -/
def openSpans : List OpenNode → List Span
  | [] => []
  | node :: outer => openSpans outer ++
      ⟨countOpen outer, 1, node.data⟩ :: spansAmong (countOpen outer + 1) node.children

def spans (b : TreeBuilder) : List Span :=
  openSpans b.openNodes ++ b.root?.elim [] (Tree.spansFrom 0)

section Spans

variable {b b' : TreeBuilder} {above f : NodeData → NodeData} {id : Nat} {nodes : List OpenNode}
  {e : Span}

theorem openSpan_bounds (h : e ∈ openSpans nodes) :
    e.id + e.size ≤ countOpen nodes ∧ 0 < e.size := by
  induction nodes with
  | nil => cases h
  | cons node outer ih =>
    rw [countOpen, OpenNode.size]
    rcases List.mem_append.1 h with h | h
    · have hbounds := ih h
      omega
    · rcases List.mem_cons.1 h with rfl | h
      · exact ⟨by simp only; omega, Nat.one_pos⟩
      · have hbounds := span_bounds_among h
        omega

private theorem openSpans_change_before (h : countOpen nodes ≤ id) :
    (openSpans nodes).map (Span.change above f id) = openSpans nodes :=
  Span.map_change_eq_self fun _ he =>
    Span.change_of_before (Nat.le_trans (openSpan_bounds he).1 h) (openSpan_bounds he).2

theorem countOpen_modifyOpen (above f : NodeData → NodeData) (id : Nat) (nodes : List OpenNode) :
    countOpen (modifyOpen above f id nodes) = countOpen nodes := by
  induction nodes with
  | nil => rfl
  | cons node outer ih =>
    rw [modifyOpen]
    split
    · rw [countOpen, countOpen, ih]
    · split
      · rfl
      · simp only [countOpen, OpenNode.size, Tree.sizes_modifyAmong]

private theorem openSpans_modifyOpen (id : Nat) (nodes : List OpenNode) :
    openSpans (modifyOpen above f id nodes) = (openSpans nodes).map (Span.change above f id) := by
  induction nodes with
  | nil => rfl
  | cons node outer ih =>
    rw [modifyOpen, openSpans, List.map_append, List.map_cons]
    split
    · rename_i hlt
      have hself : Span.change above f id ⟨countOpen outer, 1, node.data⟩ = _ :=
        Span.change_of_behind hlt
      rw [openSpans, ih, countOpen_modifyOpen, hself,
        Tree.spansAmong_change_behind (show id < countOpen outer + 1 by omega)]
    · split
      · rename_i heq
        rw [openSpans_change_before (Nat.le_of_eq heq.symm),
          Tree.spansAmong_change_behind (show id < countOpen outer + 1 by omega)]
        simp only [openSpans, Span.change, heq, if_pos]
      · rename_i hge hne
        have hself : Span.change above f id ⟨countOpen outer, 1, node.data⟩ = _ :=
          Span.change_of_before (by simp only; omega) Nat.one_pos
        rw [openSpans_change_before (by omega), hself, openSpans, Tree.spansAmong_modifyAmong,
          show countOpen outer + 1 + (id - countOpen outer - 1) = id by omega]

theorem Unrooted.openNodes_eq_nil {root : Tree} (h : b.Unrooted)
    (hroot : b.root? = some root) : b.openNodes = [] := by
  by_contra hne
  rw [h hne] at hroot
  cases hroot

theorem spans_modifyData (hb : b.Unrooted) (h : b.modifyData above f id = .ok b') :
    b'.spans = b.spans.map (Span.change above f id) := by
  unfold modifyData at h
  split at h
  · rename_i hlt
    cases h
    simp only [spans, openSpans_modifyOpen, List.map_append]
    congr 1
    cases hroot : b.root? with
    | none => rfl
    | some root =>
      have hopen := hb.openNodes_eq_nil hroot
      have hsize : id < root.size := by simpa [size, hopen, hroot, countOpen] using hlt
      simp only [Option.map_some, Option.elim_some]
      rw [Tree.spansFrom_modify id 0 root hsize, Nat.zero_add]
  · cases h

theorem spans_add {t : Tree} (h : b.root? = none) :
    (b.add t).spans = b.spans ++ t.spansFrom b.size := by
  obtain ⟨language, openNodes, root?⟩ := b
  subst h
  cases openNodes with
  | nil => rfl
  | cons parent outer =>
    have hsize : size ⟨language, parent :: outer, none⟩ =
        countOpen outer + 1 + sizes parent.children := by
      simp only [size, countOpen, OpenNode.size, Option.elim_none]
      omega
    simp only [add, spans, openSpans, hsize, Tree.spansAmong_append, spansAmong, List.append_nil,
      Option.elim_none, List.append_assoc, List.cons_append]

theorem spans_opened {data : NodeData} (h : b.root? = none) :
    (b.opened data).spans = b.spans ++ [⟨b.size, 1, data⟩] := by
  simp only [opened, spans, openSpans, spansAmong, h, size, Option.elim_none, List.append_nil,
    Nat.add_zero]

theorem spans_finish {ast : Ast} (h : b.finish = .ok ast) :
    b.spans = ast.nodes.map Ast.Node.span := by
  obtain ⟨hopen, hroot, -⟩ := finish_eq_ok_iff.1 h
  rw [spans, hopen, hroot, Ast.nodes, Tree.map_span_nodesFrom]
  rfl

end Spans

end TreeBuilder

end SourceModel
