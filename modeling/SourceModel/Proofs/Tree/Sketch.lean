import SourceModel.Proofs.Tree.Nesting

/-!
# Sketches of trees

A sketch keeps the shape of a tree and a part of what its nodes say about themselves. A change of
one node that is not seen in the sketch keeps whatever the sketch tells: the numbers of the nodes,
the nodes above them, and where they lie.
-/

namespace SourceModel

def Ast.Node.mapTree (f : Tree → Tree) (n : Ast.Node) : Ast.Node := { n with tree := f n.tree }

/-- What a node says about itself, without what is attached to it. -/
def NodeData.bare (data : NodeData) : NodeData := { data with attachments := {} }

namespace Tree

mutual
/-- The tree in which the nodes say `g` of what they said, and which has no foreign trees. -/
def sketch (g : NodeData → NodeData) : Tree → Tree
  | .node data children _ => .node (g data) (sketches g children) none

def sketches (g : NodeData → NodeData) : List Tree → List Tree
  | [] => []
  | t :: ts => t.sketch g :: sketches g ts
end

section Sketch

variable {g : NodeData → NodeData}

@[simp] theorem data_sketch (t : Tree) : (t.sketch g).data = g t.data := by
  cases t
  rfl

theorem kind_sketch (t : Tree) : (t.sketch NodeData.bare).kind = t.kind := by
  rw [Tree.kind, data_sketch]
  rfl

theorem text_sketch (t : Tree) : (t.sketch NodeData.bare).text = t.text := by
  rw [Tree.text, data_sketch]
  rfl

theorem region_sketch (t : Tree) : (t.sketch NodeData.bare).region = t.region := by
  rw [Tree.region, data_sketch]
  rfl

@[simp] theorem children_sketch (t : Tree) : (t.sketch g).children = sketches g t.children := by
  cases t
  rfl

theorem sketch_eq (t : Tree) : t.sketch g = .node (g t.data) (sketches g t.children) none := by
  cases t
  rfl

theorem sketches_eq_map (ts : List Tree) : sketches g ts = ts.map (sketch g) := by
  induction ts with
  | nil => rfl
  | cons t ts ih => rw [sketches, ih, List.map_cons]

mutual
@[simp] theorem size_sketch : ∀ t : Tree, (t.sketch g).size = t.size
  | .node data children foreign => by rw [sketch, size, size, sizes_sketches children]

@[simp] theorem sizes_sketches : ∀ ts : List Tree, sizes (sketches g ts) = sizes ts
  | [] => rfl
  | t :: ts => by rw [sketches, sizes, sizes, size_sketch t, sizes_sketches ts]
end

mutual
theorem preorder_sketch : ∀ t : Tree, (t.sketch g).preorder = t.preorder.map (sketch g)
  | .node data children foreign => by
    simp only [sketch, preorder, List.map_cons, preorders_sketches children]

theorem preorders_sketches : ∀ ts : List Tree,
    preorders (sketches g ts) = (preorders ts).map (sketch g)
  | [] => rfl
  | t :: ts => by
    simp only [sketches, preorders, List.map_append, preorder_sketch t, preorders_sketches ts]
end

mutual
theorem datas_sketch : ∀ t : Tree, (t.sketch g).datas = t.datas.map g
  | .node data children foreign => by
    simp only [sketch, datas_node, List.map_cons, datasAmong_sketches children]

private theorem datasAmong_sketches : ∀ ts : List Tree,
    datasAmong (sketches g ts) = (datasAmong ts).map g
  | [] => rfl
  | t :: ts => by
    simp only [sketches, datasAmong_cons, List.map_append, datas_sketch t, datasAmong_sketches ts]
end

mutual
theorem nodesFrom_sketch : ∀ (id : Nat) (ancestors : List Nat) (t : Tree),
    (t.sketch g).nodesFrom id ancestors =
      (t.nodesFrom id ancestors).map (Ast.Node.mapTree (sketch g))
  | id, ancestors, .node data children foreign => by
    simp only [sketch, nodesFrom, List.map_cons, nodesAmong_sketches (id + 1) _ children]
    rfl

theorem nodesAmong_sketches : ∀ (id : Nat) (ancestors : List Nat) (ts : List Tree),
    nodesAmong id ancestors (sketches g ts) =
      (nodesAmong id ancestors ts).map (Ast.Node.mapTree (sketch g))
  | _, _, [] => rfl
  | id, ancestors, t :: ts => by
    simp only [sketches, nodesAmong, List.map_append, size_sketch, nodesFrom_sketch id _ t,
      nodesAmong_sketches _ _ ts]
end

mutual
/-- A sketch with regions is nested just if the tree is. -/
theorem nested_sketch (hg : ∀ data, (g data).region = data.region) :
    ∀ t : Tree, (t.sketch g).Nested ↔ t.Nested
  | .node data children foreign => by
    rw [sketch, Nested, Nested, hg]
    exact nestedIn_sketches hg _ _ children

theorem nestedIn_sketches (hg : ∀ data, (g data).region = data.region) :
    ∀ (lo hi : Nat) (ts : List Tree), NestedIn lo hi (sketches g ts) ↔ NestedIn lo hi ts
  | _, _, [] => Iff.rfl
  | lo, hi, t :: ts => by
    have hregion : (t.sketch g).region = t.region := by rw [region, data_sketch, hg, region]
    rw [sketches, NestedIn, NestedIn, hregion, nested_sketch hg t, nestedIn_sketches hg _ _ ts]
end

section Modify

variable {above : NodeData → NodeData} {f : Tree → Tree}

mutual
/-- A change of one node and of the nodes above it that is not seen in the sketch. -/
theorem sketch_modify (ha : ∀ data, g (above data) = g data)
    (hf : ∀ t, (f t).sketch g = t.sketch g) :
    ∀ (id : Nat) (t : Tree), (t.modify above f id).sketch g = t.sketch g
  | 0, t => by rw [modify, hf]
  | id + 1, .node data children foreign => by
    rw [modify, sketch, sketch, ha, sketches_modifyAmong ha hf id children]

theorem sketches_modifyAmong (ha : ∀ data, g (above data) = g data)
    (hf : ∀ t, (f t).sketch g = t.sketch g) :
    ∀ (id : Nat) (ts : List Tree), sketches g (modifyAmong above f id ts) = sketches g ts
  | _, [] => by rw [modifyAmong]
  | id, t :: ts => by
    rw [modifyAmong]
    split
    · rw [sketches, sketches, sketch_modify ha hf id t]
    · rw [sketches, sketches, sketches_modifyAmong ha hf (id - t.size) ts]
end

end Modify

theorem map_children_sketch {t u : Tree} (h : t.sketch g = u.sketch g) :
    t.children.map (sketch g) = u.children.map (sketch g) := by
  rw [← sketches_eq_map, ← sketches_eq_map, ← children_sketch, ← children_sketch, h]

section Same

variable {t u c l r : Tree}

theorem kind_of_sketch (h : t.sketch NodeData.bare = u.sketch NodeData.bare) : t.kind = u.kind := by
  rw [← t.kind_sketch, h, u.kind_sketch]

theorem text_of_sketch (h : t.sketch NodeData.bare = u.sketch NodeData.bare) : t.text = u.text := by
  rw [← t.text_sketch, h, u.text_sketch]

theorem children_eq_nil_of_sketch (h : t.sketch g = u.sketch g) (hc : u.children = []) :
    t.children = [] := by
  have hchildren := map_children_sketch h
  rw [hc] at hchildren
  exact List.map_eq_nil_iff.1 hchildren

theorem exists_child_of_sketch (h : t.sketch g = u.sketch g) (hc : u.children = [c]) :
    ∃ c', t.children = [c'] ∧ c'.sketch g = c.sketch g := by
  have hchildren := map_children_sketch h
  rw [hc] at hchildren
  exact List.map_eq_singleton_iff.1 hchildren

theorem exists_children_of_sketch (h : t.sketch g = u.sketch g) (hc : u.children = [l, r]) :
    ∃ l' r', t.children = [l', r'] ∧ l'.sketch g = l.sketch g ∧ r'.sketch g = r.sketch g := by
  have hchildren := map_children_sketch h
  rw [hc, List.map_cons, List.map_singleton] at hchildren
  obtain ⟨l', rest, hc', hl, hrest⟩ := List.map_eq_cons_iff.1 hchildren
  obtain ⟨r', rfl, hr⟩ := List.map_eq_singleton_iff.1 hrest
  exact ⟨l', r', hc', hl, hr⟩

end Same

/-- What passes to trees with the same sketches passes to the members of lists of them. -/
theorem forall_of_map_sketch {P : Tree → Prop} {ts us : List Tree}
    (hP : ∀ t u : Tree, t.sketch g = u.sketch g → P u → P t)
    (h : ts.map (sketch g) = us.map (sketch g)) (hus : ∀ u ∈ us, P u) : ∀ t ∈ ts, P t := by
  intro t ht
  have hmem := List.mem_map_of_mem (f := sketch g) ht
  rw [h] at hmem
  obtain ⟨u, hu, heq⟩ := List.mem_map.1 hmem
  exact hP t u heq.symm (hus u hu)

theorem forall_of_sketch {P : Tree → Prop} {ts us : List Tree}
    (hP : ∀ t, P (t.sketch NodeData.bare) ↔ P t)
    (h : ts.map (sketch NodeData.bare) = us.map (sketch NodeData.bare)) (hus : ∀ u ∈ us, P u) :
    ∀ t ∈ ts, P t :=
  forall_of_map_sketch (fun t u heq hu => by rwa [← hP, heq, hP]) h hus

end Sketch

end Tree

end SourceModel
