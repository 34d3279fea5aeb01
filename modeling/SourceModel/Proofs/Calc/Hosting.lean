import SourceModel.Proofs.Calc.Origins

/-!
# Where templates lie

The node of a template lies around the template, so that the tree of the template can be attached
to it.
-/

namespace SourceModel.Calc

section Hosted

variable {offset : Nat} {kind : CstKind} {cs : List Cst} {region : Region}

/-- The template of an entry lies in the region of the entry, which ends before an offset. -/
def Entry.Hosted (e : Entry) (stop : Nat) : Prop :=
  ∀ start text, e.chunk = some (start, text) →
    (∃ flags, e.data.embedding = some ⟨templateLanguage, flags⟩) ∧
      e.data.region.offset ≤ start ∧ start + Text.size text ≤ e.data.region.stop ∧
        e.data.region.stop ≤ stop

theorem Entry.hosted_of_none {e : Entry} {stop : Nat} (h : e.chunk = none) : e.Hosted stop := by
  intro start text hc
  rw [h] at hc
  cases hc

private theorem hosted_chunkEntry {kind : SyntaxKind} {flags : EmbeddingFlags} {start stop : Nat}
    {text : String} (ho : region.offset ≤ start) (ht : start + Text.size text ≤ region.stop)
    (hs : region.stop ≤ stop) : (chunkEntry kind flags region start text).Hosted stop := by
  intro start' text' hc
  rw [chunkEntry, chunk_judged] at hc
  cases hc
  rw [chunkEntry, embedding_judged, region_judged]
  exact ⟨⟨flags, rfl⟩, ho, ht, hs⟩

theorem start_mem_place {token : TokenKind} {start : Nat} {text : String} {rest : List Cst}
    (hs : Sound (.node kind cs)) (hk : kind ≠ .error) (hsize : offset + Cst.widths cs < naOffset)
    (ht : token.isTrivia = false) (hw : Starts token offset cs start text rest) :
    (place offset (.node kind cs)).offset ≤ start ∧
      start + Text.size text ≤ (place offset (.node kind cs)).stop := by
  have hb := between_place hs hk hsize
  rw [hw.bounds_eq, significantBoundsAmong] at hb
  refine (between_coverBounds.1 hb).1 _ _ ?_
  simp [significantBounds, ht]

private theorem place_stop_le (hs : Sound (.node kind cs))
    (hsize : offset + Cst.widths cs < naOffset) :
    (place offset (.node kind cs)).stop ≤ offset + Cst.widths cs := by
  have hmem := significantBounds_mem (place_mem hs hsize).2
  exact hmem.2.2

private theorem chunk_literalEntry (offset : Nat) (region : Region) (cs : List Cst) :
    (literalEntry offset region cs).chunk = none := by
  unfold literalEntry
  split
  · rw [chunk_judged]
    rfl
  · rfl

/-- The template nodes of sound trees lie around their templates and end no later than the trees. -/
theorem hosted_draftsAmong (hs : SoundAmong cs) (hsize : offset + Cst.widths cs < naOffset) :
    ∀ e ∈ Draft.entriesAmong (draftsAmong offset cs), e.Hosted (offset + Cst.widths cs) := by
  intro e he
  obtain ⟨pos, kind, children, hnode, hmade⟩ := comesFrom_draftsAmong offset cs e he
  have hsound := hnode.sound hs
  have hstop := hnode.stop_le
  cases hmade with
  | branch | name | nameRef | error => exact Entry.hosted_of_none rfl
  | literal => exact Entry.hosted_of_none (chunk_literalEntry ..)
  | template hk hkind hf =>
    obtain ⟨hne, rest, hw⟩ := exists_starts_template hsound hkind hf
    have hlt : pos + Cst.widths children < naOffset := by omega
    obtain ⟨ho, ht⟩ := start_mem_place hsound hne hlt rfl hw
    have hend := place_stop_le hsound hlt
    exact hosted_chunkEntry ho ht (Nat.le_trans hend hstop)

end Hosted

end SourceModel.Calc
