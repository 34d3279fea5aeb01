import Mathlib.Logic.Relation
import SourceModel.Proofs.Tree.Arranged
import SourceModel.Proofs.Tree.Sketch

/-!
# Foreign trees in their hosts

From the root of a tree one gets down to children and to foreign trees, and from these to theirs.
If every foreign tree lies inside the node that carries it, everything down there lies inside
everything on the way. A node may get another foreign tree as long as that one lies inside it.
-/

namespace SourceModel

namespace Tree

/-! ## What the nodes carry -/

def foreigns (t : Tree) : List (Option Tree) := t.preorder.map Tree.foreign

def foreignsAmong (ts : List Tree) : List (Option Tree) := (preorders ts).map Tree.foreign

@[simp] theorem foreigns_node (data : NodeData) (children : List Tree) (foreign : Option Tree) :
    (Tree.node data children foreign).foreigns = foreign :: foreignsAmong children := by
  simp [foreigns, foreignsAmong, preorder, Tree.foreign]

@[simp] theorem foreignsAmong_nil : foreignsAmong [] = [] := rfl

@[simp] theorem foreignsAmong_cons (t : Tree) (ts : List Tree) :
    foreignsAmong (t :: ts) = t.foreigns ++ foreignsAmong ts := by
  simp [foreigns, foreignsAmong, preorders]

@[simp] theorem foreignsAmong_append (ts us : List Tree) :
    foreignsAmong (ts ++ us) = foreignsAmong ts ++ foreignsAmong us := by
  simp [foreignsAmong, preorders_append]

section Modify

variable {above : NodeData → NodeData} {f : Tree → Tree} {g : Option Tree → Option Tree}

private theorem foreigns_modify (hc : ∀ t, (f t).children = t.children)
    (hg : ∀ t, (f t).foreign = g t.foreign) (id : Nat) (t : Tree) :
    (t.modify above f id).foreigns = t.foreigns.modify id g :=
  map_preorder_modify hc hg (fun _ _ _ _ => rfl) id t

private theorem foreignsAmong_modify (hc : ∀ t, (f t).children = t.children)
    (hg : ∀ t, (f t).foreign = g t.foreign) (id : Nat) (ts : List Tree) :
    foreignsAmong (modifyAmong above f id ts) = (foreignsAmong ts).modify id g :=
  map_preorders_modify hc hg (fun _ _ _ _ => rfl) id ts

theorem foreigns_modifyData (above f : NodeData → NodeData) (id : Nat) (t : Tree) :
    (t.modify above (mapData f) id).foreigns = t.foreigns := by
  rw [foreigns_modify (g := fun foreign => foreign) (children_mapData f) (foreign_mapData f)]
  exact List.modify_id _ _

theorem foreignsAmong_modifyData (above f : NodeData → NodeData) (id : Nat) (ts : List Tree) :
    foreignsAmong (modifyAmong above (mapData f) id ts) = foreignsAmong ts := by
  rw [foreignsAmong_modify (g := fun foreign => foreign) (children_mapData f) (foreign_mapData f)]
  exact List.modify_id _ _

end Modify

section Carry

variable {t u v : Tree} {id : Nat} {foreign : Tree}

private theorem foreigns_carry (foreign : Tree) (id : Nat) (t : Tree) :
    (t.modify (fun above => above) (withForeign (some foreign)) id).foreigns =
      t.foreigns.set id (some foreign) := by
  rw [List.set_eq_modify]
  exact foreigns_modify (children_withForeign _) (foreign_withForeign _) id t

theorem datas_carry (foreign : Tree) (id : Nat) (t : Tree) :
    (t.modify (fun above => above) (withForeign (some foreign)) id).datas = t.datas := by
  rw [datas_modify (g := fun data => data) (children_withForeign _) (data_withForeign _)]
  exact List.modify_id _ _

/-- The nodes say the same about themselves, and only one of them carries another tree. -/
theorem get?_carry {i : Nat}
    (h : (t.modify (fun above => above) (withForeign (some foreign)) id).get? i = some v) :
    ∃ u, t.get? i = some u ∧ v.data = u.data ∧
      v.foreign = if i = id then some foreign else u.foreign := by
  rw [get?_eq_getElem?] at h
  have hdata : t.datas[i]? = some v.data := by
    rw [← datas_carry foreign id t, datas, List.getElem?_map, h]
    rfl
  have hforeign : (t.foreigns.set id (some foreign))[i]? = some v.foreign := by
    rw [← foreigns_carry foreign id t, foreigns, List.getElem?_map, h]
    rfl
  obtain ⟨u, hu, hud⟩ := exists_get? hdata
  rw [List.set_eq_modify, List.getElem?_modify, foreigns, List.getElem?_map, ← get?_eq_getElem?,
    hu] at hforeign
  refine ⟨u, hu, hud.symm, ?_⟩
  by_cases hid : i = id
  · subst hid
    simpa using hforeign.symm
  · simpa [hid, Ne.symm hid] using hforeign.symm

end Carry

def alone (t : Tree) : Tree := t.sketch fun data => data

private theorem alone_carry (foreign : Tree) (id : Nat) (t : Tree) :
    (t.modify (fun above => above) (withForeign (some foreign)) id).alone = t.alone :=
  sketch_modify (fun _ => rfl) (fun u => by simp [sketch_eq]) id t

mutual
theorem alone_eq_self : ∀ {t : Tree}, (∀ foreign ∈ t.foreigns, foreign = none) → t.alone = t
  | .node data children foreign, h => by
    rw [foreigns_node] at h
    obtain ⟨hforeign, hchildren⟩ := List.forall_mem_cons.1 h
    rw [alone, sketch, sketches_eq_self hchildren, hforeign]

private theorem sketches_eq_self :
    ∀ {ts : List Tree}, (∀ foreign ∈ foreignsAmong ts, foreign = none) →
    sketches (fun data => data) ts = ts
  | [], _ => rfl
  | t :: ts, h => by
    rw [foreignsAmong_cons] at h
    obtain ⟨ht, hts⟩ := List.forall_mem_append.1 h
    rw [sketches, sketches_eq_self hts]
    exact congrArg (· :: ts) (alone_eq_self ht)
end

section Same

variable {g : NodeData → NodeData}

mutual
/-- Trees of one shape whose nodes say the same are the same but for what they carry. -/
theorem alone_eq_of_sketch : ∀ {t u : Tree}, t.sketch g = u.sketch g → t.datas = u.datas →
    t.alone = u.alone
  | .node data children foreign, .node data' children' foreign', hshape, hdatas => by
    rw [sketch, sketch, Tree.node.injEq] at hshape
    rw [datas_node, datas_node] at hdatas
    obtain ⟨rfl, hchildren⟩ := List.cons.inj hdatas
    rw [alone, alone, sketch, sketch, sketches_eq_of_sketches hshape.2.1 hchildren]

private theorem sketches_eq_of_sketches : ∀ {ts us : List Tree}, sketches g ts = sketches g us →
    datasAmong ts = datasAmong us → sketches (fun data => data) ts = sketches (fun data => data) us
  | [], [], _, _ => rfl
  | [], u :: us, hshape, _ => nomatch hshape
  | t :: ts, [], hshape, _ => nomatch hshape
  | t :: ts, u :: us, hshape, hdatas => by
    obtain ⟨hfirst, hrest⟩ := List.cons.inj hshape
    rw [datasAmong_cons, datasAmong_cons] at hdatas
    have hsize : t.datas.length = u.datas.length := by
      rw [length_datas, length_datas, ← size_sketch t, hfirst, size_sketch]
    obtain ⟨hd, hds⟩ := List.append_inj hdatas hsize
    rw [sketches, sketches, sketches_eq_of_sketches hrest hds]
    exact congrArg (· :: sketches _ us) (alone_eq_of_sketch hfirst hd)
end

end Same

/-! ## Ways down -/

/-- A tree hangs at the root of another one, as a child or as the foreign tree. -/
inductive Links : Tree → Tree → Prop
  | child {t u : Tree} (h : u ∈ t.children) : Links t u
  | foreign {t u : Tree} (h : t.foreign = some u) : Links t u

def Reaches : Tree → Tree → Prop := Relation.ReflTransGen Links

/-- Whether the nodes of a tree are nested and every foreign tree lies inside its node, at any
depth. -/
inductive Embeds : Tree → Prop
  | intro {t : Tree} (nested : t.Nested)
    (inside : ∀ u ∈ t.preorder, ∀ v, u.foreign = some v → u.region.containsRegion v.region = true)
    (embeds : ∀ u ∈ t.preorder, ∀ v, u.foreign = some v → v.Embeds) : t.Embeds

section Embeds

variable {t u v : Tree} {id : Nat} {foreign : Tree}

theorem embeds_of_nested (h : t.Nested) (hf : ∀ foreign ∈ t.foreigns, foreign = none) :
    t.Embeds := by
  have hnone : ∀ u ∈ t.preorder, u.foreign = none := by
    intro u hu
    exact hf u.foreign (List.mem_map_of_mem hu)
  apply Embeds.intro h
  · intro u hu v hv
    rw [hnone u hu] at hv
    cases hv
  · intro u hu v hv
    rw [hnone u hu] at hv
    cases hv

private theorem Embeds.of_links (h : t.Embeds) (hl : Links t u) :
    t.region.containsRegion u.region = true ∧ u.Embeds := by
  obtain ⟨hnested, hinside, hembeds⟩ := h
  cases hl with
  | foreign hu => exact ⟨hinside t t.mem_preorder_self u hu, hembeds t t.mem_preorder_self u hu⟩
  | child hu =>
    obtain ⟨hlo, hhi, hn⟩ := ((nested_iff t).1 hnested).mem hu
    constructor
    · exact Region.containsRegion_iff.2 ⟨hlo, hhi⟩
    · apply Embeds.intro hn
      · intro v hv
        exact hinside v (mem_preorder_trans (mem_preorder_of_child hu) hv)
      · intro v hv
        exact hembeds v (mem_preorder_trans (mem_preorder_of_child hu) hv)

theorem Embeds.of_reaches (h : t.Embeds) (hr : Reaches t u) :
    t.region.containsRegion u.region = true ∧ u.Embeds := by
  induction hr with
  | refl => exact ⟨t.region.containsRegion_refl, h⟩
  | tail _ hl ih =>
    obtain ⟨hin, hembeds⟩ := ih
    obtain ⟨hin', hembeds'⟩ := hembeds.of_links hl
    exact ⟨Region.containsRegion_trans hin hin', hembeds'⟩

theorem Embeds.carry (h : t.Embeds) (hu : t.get? id = some u)
    (hin : u.region.containsRegion foreign.region = true) (hf : foreign.Embeds) :
    (t.modify (fun above => above) (withForeign (some foreign)) id).Embeds := by
  obtain ⟨hnested, hinside, hembeds⟩ := h
  have hforeign : ∀ {v w : Tree}, v ∈ (t.modify (fun above => above) (withForeign (some foreign))
      id).preorder → v.foreign = some w → v.region.containsRegion w.region = true ∧ w.Embeds := by
    intro v w hv hw
    obtain ⟨i, hi⟩ := exists_get?_of_mem hv
    obtain ⟨u', hu', hdata, hcarry⟩ := get?_carry hi
    have hregion : v.region = u'.region := congrArg NodeData.region hdata
    rw [hcarry] at hw
    by_cases hid : i = id
    · subst hid
      rw [if_pos rfl, Option.some.injEq] at hw
      rw [hu, Option.some.injEq] at hu'
      rw [hregion, ← hu', ← hw]
      exact ⟨hin, hf⟩
    · rw [if_neg hid] at hw
      rw [hregion]
      exact ⟨hinside u' (mem_of_get? hu') w hw, hembeds u' (mem_of_get? hu') w hw⟩
  apply Embeds.intro
  · exact hnested.modify (children_withForeign _) (fun u => by simp [Tree.region]) id
  · intro v hv w hw
    exact (hforeign hv hw).1
  · intro v hv w hw
    exact (hforeign hv hw).2

end Embeds

end Tree

/-! ## Attaching -/

namespace Ast

/-- A foreign tree may be attached to a node: there is such a node, it asks for a tree of this
language, and the tree lies inside it. -/
def Fits (ast : Ast) (id : Nat) (foreign : Ast) : Prop :=
  ∃ t flags, ast.root.get? id = some t ∧ t.data.embedding = some ⟨foreign.language, flags⟩ ∧
    t.region.containsRegion foreign.root.region = true

theorem attachForeign_cases (ast : Ast) (id : Nat) (foreign : Ast) :
    ast.Fits id foreign ∧ ast.attachForeign id foreign = .ok (ast.putForeign id foreign) ∨
      ¬ ast.Fits id foreign ∧ ∃ fault, ast.attachForeign id foreign = .error fault := by
  unfold attachForeign Fits
  cases ht : ast.root.get? id with
  | none => simp
  | some t =>
    cases he : t.data.embedding with
    | none => simp [he]
    | some embedding =>
      by_cases hin : t.region.containsRegion foreign.root.region = true
      · by_cases hl : foreign.language = embedding.language
        · left
          refine ⟨⟨t, embedding.flags, rfl, ?_, hin⟩, ?_⟩
          · rw [he, hl]
          · simp [he, hin, hl, putForeign]
        · have hother : ∀ flags, embedding ≠ ⟨foreign.language, flags⟩ := by
            rintro flags rfl
            exact hl rfl
          simp [he, hin, hl, hother]
      · simp [he, hin]

theorem Fits.attachForeign_eq {ast foreign : Ast} {id : Nat} (h : ast.Fits id foreign) :
    ast.attachForeign id foreign = .ok (ast.putForeign id foreign) := by
  rcases ast.attachForeign_cases id foreign with ⟨-, hok⟩ | ⟨hnot, -⟩
  · exact hok
  · exact absurd h hnot

theorem attachForeign_eq_error_iff {ast foreign : Ast} {id : Nat} :
    (∃ fault, ast.attachForeign id foreign = .error fault) ↔ ¬ ast.Fits id foreign := by
  rcases ast.attachForeign_cases id foreign with ⟨hfits, hok⟩ | ⟨hnot, herror⟩
  · simp [hfits, hok]
  · simp [hnot, herror]

/-- Attaches a foreign tree in place. What it writes before it fails stays written. -/
def attachInPlace (id : Nat) (foreign : Ast) : EStateM Fault Ast Unit := do
  let ast ← get
  let some t := ast.root.get? id | throw (.noChild id ast.size)
  let some embedding := t.data.embedding
    | throw (.contract s!"node {displayId id} ({t.kind.name}) is not an embedding node")
  if !t.region.containsRegion foreign.root.region then
    throw (.contract (s!"foreign tree {foreign.root.region.display} exceeds " ++
      s!"embedding node {t.region.display}"))
  if foreign.language != embedding.language then
    throw (.contract (s!"foreign tree language '{foreign.language}' does not match " ++
      s!"embedding type '{embedding.language}'"))
  modify fun ast => ast.putForeign id foreign

theorem attachInPlace_run (ast : Ast) (id : Nat) (foreign : Ast) :
    (attachInPlace id foreign).run ast =
      match ast.attachForeign id foreign with
      | .ok ast' => .ok () ast'
      | .error fault => .error fault ast := by
  simp only [attachInPlace, EStateM.run_bind, EStateM.run_get, attachForeign]
  cases ast.root.get? id with
  | none => rfl
  | some t =>
    cases he : t.data.embedding with
    | none =>
      simp only [he]
      rfl
    | some embedding =>
      simp only [he]
      by_cases hin : (!t.region.containsRegion foreign.root.region) = true
      · rw [if_pos hin, if_pos hin]
        rfl
      · rw [if_neg hin, if_neg hin]
        by_cases hl : (foreign.language != embedding.language) = true
        · rw [if_pos hl, if_pos hl]
          rfl
        · rw [if_neg hl, if_neg hl]
          rfl

/-- All that changes when a foreign tree is attached is the tree that one node carries. -/
structure Attaches (ast : Ast) (id : Nat) (foreign ast' : Ast) : Prop where
  language_eq : ast'.language = ast.language
  alone_eq : ast'.root.alone = ast.root.alone
  foreigns_eq : ast'.root.foreigns = ast.root.foreigns.set id (some foreign.root)
  foreign?_eq : ast'.foreign? id = some foreign

theorem attaches_of_eq_ok {ast foreign ast' : Ast} {id : Nat}
    (h : ast.attachForeign id foreign = .ok ast') : ast.Attaches id foreign ast' := by
  rcases ast.attachForeign_cases id foreign with ⟨⟨t, flags, ht, he, -⟩, hok⟩ | ⟨-, fault, herror⟩
  · rw [hok] at h
    cases h
    have hdata : (ast.putForeign id foreign).root.datas[id]? = some t.data := by
      rw [putForeign, Tree.datas_carry, ← Tree.map_data_get?, ht]
      rfl
    obtain ⟨u, hu, hud⟩ := Tree.exists_get? hdata
    obtain ⟨_, _, _, hcarry⟩ := Tree.get?_carry hu
    rw [if_pos rfl] at hcarry
    refine ⟨rfl, Tree.alone_carry .., Tree.foreigns_carry .., ?_⟩
    simp [foreign?, hu, hud, he, hcarry]
  · rw [herror] at h
    cases h

end Ast

namespace Tree

/-- Whether a node carries a foreign tree in the language it asks for, or none if there is none. -/
def Carries (t : Tree) : Option Ast → Prop
  | none => t.foreign = none
  | some foreign => t.foreign = some foreign.root ∧
      ∃ flags, t.data.embedding = some ⟨foreign.language, flags⟩

theorem Carries.congr {t u : Tree} {foreign? : Option Ast} (h : t.Carries foreign?)
    (hdata : u.data = t.data) (hforeign : u.foreign = t.foreign) : u.Carries foreign? := by
  cases foreign? with
  | none => exact hforeign.trans h
  | some foreign =>
    rw [Carries, hdata, hforeign]
    exact h

end Tree

end SourceModel
