import SourceModel.Proofs.Tree.Arena

/-!
# Syntax trees that grow

However a front end calls the builder, the nodes that it has written form a tree: every node but the
first one stands once among the children of one earlier node and of no other, and the open nodes
are those on the way to the innermost one. A call that is refused leaves all nodes and links as
they are, and what comes out in the end is the tree that the builder describes.
-/

namespace SourceModel

namespace TreeArena

/-- The nodes of an arena form a tree, of which the way down to one node is open. -/
structure WellFormed (t : TreeArena) : Prop where
  root : ∀ slot : NodeSlot, t.slots[0]? = some slot → slot.parent? = none
  parent : ∀ (j : Nat) (slot : NodeSlot), t.slots[j]? = some slot → j ≠ 0 →
    ∃ (i : Nat) (above : NodeSlot), slot.parent? = some i ∧ i < j ∧
      t.slots[i]? = some above ∧ above.children.count j = 1
  child : ∀ (i : Nat) (above : NodeSlot), t.slots[i]? = some above → ∀ j ∈ above.children,
    ∃ slot : NodeSlot, t.slots[j]? = some slot ∧ slot.parent? = some i
  siblings : ∀ (i : Nat) (above : NodeSlot), t.slots[i]? = some above →
    above.children.Pairwise (· < ·)
  opened : ∀ i ∈ t.openIds, ∃ slot : NodeSlot, t.slots[i]? = some slot ∧
    ∀ p ∈ slot.parent?, p ∈ t.openIds

section WellFormed

variable {b : TreeBuilder}

private theorem exists_node_of_slots_of (hb : b.Unrooted) {i : Nat} {slot : NodeSlot}
    (h : (of b).slots[i]? = some slot) :
    ∃ n ∈ b.nodes, n.id = i ∧ slot = ⟨n.tree.data, n.parent?, b.childrenOf i⟩ := by
  have hlt : i < b.size := length_slots_of hb ▸ (List.getElem?_eq_some_iff.1 h).1
  obtain ⟨n, hn, rfl⟩ := TreeBuilder.exists_mem_nodes hb hlt
  rw [slots_of_of_mem hb hn, Option.some.injEq] at h
  exact ⟨n, hn, rfl, h.symm⟩

private theorem wellFormed_of (hb : b.Unrooted) : (of b).WellFormed where
  root := by
    intro slot hslot
    obtain ⟨n, hn, hid, rfl⟩ := exists_node_of_slots_of hb hslot
    cases hp : n.parent? with
    | none => rfl
    | some p =>
      have hlt := (TreeBuilder.placed_of_mem hb hn).lt p (List.mem_of_mem_head? hp)
      omega
  parent := by
    intro j slot hslot hj
    obtain ⟨n, hn, rfl, rfl⟩ := exists_node_of_slots_of hb hslot
    have hplaced := TreeBuilder.placed_of_mem hb hn
    cases habove : n.ancestors with
    | nil => exact absurd (hplaced.first habove) hj
    | cons p above =>
      obtain ⟨m, hm, rfl, -⟩ := hplaced.parent p above habove
      have hparent : n.parent? = some m.id := by
        rw [Ast.Node.parent?, habove, List.head?_cons]
      have hlt := hplaced.lt m.id (List.mem_of_mem_head? hparent)
      refine ⟨m.id, _, hparent, hlt, slots_of_of_mem hb hm, ?_⟩
      apply List.count_eq_one_of_mem
      · exact (TreeBuilder.pairwise_childrenOf hb m.id).imp Nat.ne_of_lt
      · exact TreeBuilder.mem_childrenOf.2 ⟨n, hn, rfl, hparent⟩
  child := by
    intro i above habove j hj
    obtain ⟨n, hn, rfl, rfl⟩ := exists_node_of_slots_of hb habove
    obtain ⟨m, hm, rfl, hparent⟩ := TreeBuilder.mem_childrenOf.1 hj
    exact ⟨_, slots_of_of_mem hb hm, hparent⟩
  siblings := by
    intro i above habove
    obtain ⟨n, hn, rfl, rfl⟩ := exists_node_of_slots_of hb habove
    exact TreeBuilder.pairwise_childrenOf hb n.id
  opened := by
    intro i hi
    obtain ⟨n, hn, rfl⟩ := TreeBuilder.exists_mem_nodes hb (TreeBuilder.lt_size_of_mem_openIds hi)
    refine ⟨_, slots_of_of_mem hb hn, ?_⟩
    intro p hp
    exact (TreeBuilder.placed_of_mem hb hn).opened hi (List.mem_of_mem_head? hp)

private theorem of_refused (hb : b.Unrooted) (c : BuildCall) :
    of (b.refused c) =
      if c.isFinish then { of b with openIds := (of b).openIds.tail } else of b := by
  unfold TreeBuilder.refused
  split
  · obtain ⟨language, openNodes, root?⟩ := b
    cases openNodes with
    | nil => rfl
    | cons node outer =>
      obtain rfl : root? = none := hb (List.cons_ne_nil _ _)
      exact (of_popped language node outer).symm
  · rfl

end WellFormed

/-- What holds of a builder and of an arena behind the same calls. -/
structure Built (b : TreeBuilder) (t : TreeArena) : Prop where
  eq_of : t = of b
  wellFormed : t.WellFormed
  call_run : ∀ c, (call c).run t = result (b.call c)
  refused : ∀ c fault t', (call c).run t = .error fault t' →
    t' = if c.isFinish then { t with openIds := t.openIds.tail } else t
  finish : t.finish = b.finish.map fun ast => (ast.language, ast.nodes.map Ast.Node.slot, 0)

/-- Calls in any order, of which some may be refused, write the nodes and links of a tree. -/
theorem built_after (language : String) (calls : List BuildCall) :
    Built ((TreeBuilder.new language).after calls) (after { language } calls) := by
  have hnew : ({ language } : TreeArena) = of (TreeBuilder.new language) := rfl
  have hstart : (TreeBuilder.new language).Unrooted := fun _ => rfl
  rw [hnew, after_of hstart]
  have hb := hstart.after calls
  generalize (TreeBuilder.new language).after calls = b at *
  exact {
    eq_of := rfl
    wellFormed := wellFormed_of hb
    call_run := call_run hb
    refused := by
      intro c fault t' h
      rw [call_run hb] at h
      cases hcall : b.call c with
      | mk answer b' =>
        rw [hcall] at h
        cases answer with
        | ok answer => cases h
        | error fault' =>
          cases h
          rw [TreeBuilder.call_eq_error hcall]
          exact of_refused hb c
    finish := finish_of hb }

/-- An error in a block that is closed, inside of one that is still open. A word that overlaps the
closed block is refused before. -/
def belatedError : List BuildCall :=
  let block : SyntaxKind := ⟨"test", 0, "Block"⟩
  let word : SyntaxKind := ⟨"test", 1, "Word"⟩
  [.start block 0, .start block 1, .leaf word ⟨2, 7, by decide⟩, .finish 9,
    .leaf word ⟨4, 6, by decide⟩, .leaf word ⟨10, 9, by decide⟩, .setStatus 2 (Status.error 7)]

example :
    (after { language := "test" } belatedError).slots.map
        (fun slot => (slot.children, slot.data.status.hasErrorBelow)) =
      [([1, 3], false), ([2], true), ([], false), ([], false)] := by
  decide +kernel

end TreeArena

end SourceModel
