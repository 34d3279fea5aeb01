import SourceModel.Proofs.Calc.Placement
import SourceModel.Proofs.Calc.Tiling

/-!
# Bounds of nodes among tokens

Tokens are laid out where their sizes put them. So a node that starts and ends with significant
tokens lies from the start of the first to the end of the last one.
-/

namespace SourceModel.Calc

/-! ## Tokens in their places -/

theorem Tiles.widths_eq {lo hi : Nat} {ts : List Token} (h : Tiles lo hi ts)
    (hs : ∀ t ∈ ts, t.stop = t.start + Text.size t.text) :
    lo + Cst.widths (ts.map Token.leaf) = hi := by
  induction ts generalizing lo with
  | nil => exact h
  | cons t ts ih =>
    obtain ⟨hstart, -, hrest⟩ := h
    have htail := ih hrest fun u hu => hs u (by simp [hu])
    have hsize := hs t (by simp)
    simp only [List.map_cons, Cst.widths, Cst.width, Token.leaf]
    omega

/-- Tokens lie side by side between two offsets, each with the size of its text, and the offsets
can be written. -/
structure Laid (lo hi : Nat) (ts : List Token) : Prop where
  tiles : Tiles lo hi ts
  sizes : ∀ t ∈ ts, t.stop = t.start + Text.size t.text
  available : hi < naOffset

section Laid

variable {lo hi : Nat} {t : Token} {ts us : List Token}

theorem Laid.widths_eq (h : Laid lo hi ts) : lo + Cst.widths (ts.map Token.leaf) = hi :=
  h.tiles.widths_eq h.sizes

theorem Laid.split (h : Laid lo hi (ts ++ us)) :
    ∃ mid, Laid lo mid ts ∧ Laid mid hi us ∧ lo + Cst.widths (ts.map Token.leaf) = mid := by
  obtain ⟨mid, hts, hus⟩ := tiles_append.1 h.tiles
  have hle := hus.le
  have hfront : Laid lo mid ts :=
    ⟨hts, fun t ht => h.sizes t (List.mem_append_left _ ht), Nat.lt_of_le_of_lt hle h.available⟩
  exact ⟨mid, hfront, ⟨hus, fun t ht => h.sizes t (List.mem_append_right _ ht), h.available⟩,
    hfront.widths_eq⟩

theorem Laid.cons (h : Laid lo hi (t :: ts)) :
    t.start = lo ∧ t.stop = lo + Text.size t.text ∧ t.stop < naOffset ∧ Laid t.stop hi ts := by
  obtain ⟨hstart, -, hrest⟩ := h.tiles
  have hle := hrest.le
  have hsize := h.sizes t List.mem_cons_self
  refine ⟨hstart, by omega, Nat.lt_of_le_of_lt hle h.available, hrest, ?_, h.available⟩
  intro u hu
  exact h.sizes u (List.mem_cons_of_mem _ hu)

theorem laid_lex {source : String} (h : Text.size source < naOffset) :
    Laid 0 (Text.size source) (lex source).tokens :=
  ⟨tiles_lex source, stop_lexFrom 0 source.toList, h⟩

end Laid

/-! ## Bounds of nodes -/

section Bounds

variable {offset s e : Nat} {kind : CstKind} {c : Cst} {t u : Token}

private theorem coverBounds_assoc (a b c : Option (Nat × Nat)) :
    coverBounds (coverBounds a b) c = coverBounds a (coverBounds b c) := by
  cases a <;> cases b <;> cases c <;> simp [coverBounds, Nat.min_assoc, Nat.max_assoc]

private theorem significantBoundsAmong_append (offset : Nat) (cs ds : List Cst) :
    significantBoundsAmong offset (cs ++ ds) =
      coverBounds (significantBoundsAmong offset cs)
        (significantBoundsAmong (offset + Cst.widths cs) ds) := by
  induction cs generalizing offset with
  | nil => simp [significantBoundsAmong, coverBounds, Cst.widths]
  | cons c cs ih =>
    simp only [List.cons_append, significantBoundsAmong, ih, coverBounds_assoc, Cst.widths,
      Nat.add_assoc]

/-- A tree with bounds that can be written lies between them. -/
theorem place_bounds (h : significantBounds offset c = some (s, e)) (he : e < naOffset) :
    (place offset c).offset = s ∧ (place offset c).stop = e := by
  have hmem := significantBounds_mem h
  have hr : Region.ofBounds? s e = .ok ⟨s, e - s, by omega⟩ := by
    refine Region.ofBounds?_eq_ok_iff.2 ⟨rfl, ?_⟩
    rw [Region.stop_mk]
    omega
  have hplace : place offset c = ⟨s, e - s, by omega⟩ := by
    simp only [place, significantRegion, h, hr]
    rfl
  rw [hplace, Region.stop_mk]
  refine ⟨rfl, ?_⟩
  omega

theorem bounds_single (ht : ¬ t.isTrivia) :
    significantBoundsAmong offset [t.leaf] = some (offset, offset + Text.size t.text) := by
  have hkind : t.kind.isTrivia = false := Bool.eq_false_iff.2 ht
  simp [significantBoundsAmong, significantBounds, Token.leaf, hkind, coverBounds]

theorem bounds_enclosed (ht : ¬ t.isTrivia) (hu : ¬ u.isTrivia) (cs : List Cst) :
    significantBoundsAmong offset (t.leaf :: (cs ++ [u.leaf])) =
      some (offset, offset + Cst.widths (t.leaf :: (cs ++ [u.leaf]))) := by
  have hmem : ∀ s e, significantBoundsAmong (offset + Text.size t.text) cs = some (s, e) → _ :=
    fun s e => significantBoundsAmong_mem
  rw [← List.singleton_append, significantBoundsAmong_append, significantBoundsAmong_append,
    bounds_single ht, bounds_single hu]
  simp only [List.singleton_append, Cst.widths, Cst.widths_append, Cst.width, Token.leaf,
    Nat.add_zero]
  cases hb : significantBoundsAmong (offset + Text.size t.text) cs with
  | none =>
    simp only [coverBounds, Option.some.injEq, Prod.mk.injEq]
    omega
  | some b =>
    obtain ⟨s, e⟩ := b
    have := hmem s e hb
    simp only [coverBounds, Option.some.injEq, Prod.mk.injEq]
    omega

theorem place_single (ht : ¬ t.isTrivia) (h : offset + Text.size t.text < naOffset) :
    (place offset (.node kind [t.leaf])).offset = offset ∧
      (place offset (.node kind [t.leaf])).stop = offset + Text.size t.text := by
  refine place_bounds ?_ h
  rw [significantBounds]
  split
  · rename_i hempty
    have hsize : Text.size t.text = 0 := hempty.2
    rw [hsize, Nat.add_zero]
  · exact bounds_single ht

end Bounds

/-! ## Tokens within bounds -/

section Covers

mutual
private theorem width_of_leaves : ∀ {c : Cst} {ts : List Token}, c.leaves = ts.map Token.content →
    c.width = Cst.widths (ts.map Token.leaf)
  | .token kind text, ts, h => by
    obtain ⟨t, rfl, ht⟩ := List.map_eq_singleton_iff.1 h.symm
    have htext : t.text = text := congrArg Prod.snd ht
    simp only [List.map_singleton, Cst.widths, Cst.width, Token.leaf, htext, Nat.add_zero]
  | .node kind children, ts, h => by
    rw [Cst.leaves] at h
    rw [Cst.width, widths_of_leavesAmong h]

private theorem widths_of_leavesAmong : ∀ {cs : List Cst} {ts : List Token},
    Cst.leavesAmong cs = ts.map Token.content → Cst.widths cs = Cst.widths (ts.map Token.leaf)
  | [], ts, h => by
    rw [List.map_eq_nil_iff.1 h.symm]
    rfl
  | c :: cs, ts, h => by
    obtain ⟨front, back, rfl, hfront, hback⟩ := List.map_eq_append_iff.1 h.symm
    rw [Cst.widths, width_of_leaves hfront.symm, widths_of_leavesAmong hback.symm, List.map_append,
      Cst.widths_append]
end

/-- Whether all significant tokens lie within bounds. -/
def Covers (bounds : Option (Nat × Nat)) (ts : List Token) : Prop :=
  ∀ t ∈ ts, ¬ t.isTrivia → ∃ s e, bounds = some (s, e) ∧ s ≤ t.start ∧ t.stop ≤ e

variable {lo hi : Nat} {a b : Option (Nat × Nat)} {c : Cst} {t : Token} {ts us : List Token}

private theorem Covers.append (h : Covers a ts) (h' : Covers b us) :
    Covers (coverBounds a b) (ts ++ us) := by
  intro t ht hs
  rcases List.mem_append.1 ht with ht | ht
  · obtain ⟨s, e, rfl, hstart, hstop⟩ := h t ht hs
    cases b with
    | none => exact ⟨s, e, rfl, hstart, hstop⟩
    | some b => exact ⟨_, _, rfl, by omega, by omega⟩
  · obtain ⟨s, e, rfl, hstart, hstop⟩ := h' t ht hs
    cases a with
    | none => exact ⟨s, e, rfl, hstart, hstop⟩
    | some a => exact ⟨_, _, rfl, by omega, by omega⟩

mutual
private theorem covers_of_leaves : ∀ {c : Cst} {lo hi : Nat} {ts : List Token}, Laid lo hi ts →
    c.leaves = ts.map Token.content → Covers (significantBounds lo c) ts
  | .token kind text, lo, hi, ts, hlaid, h => by
    obtain ⟨t, rfl, ht⟩ := List.map_eq_singleton_iff.1 h.symm
    have hkind : t.kind = kind := congrArg Prod.fst ht
    have htext : t.text = text := congrArg Prod.snd ht
    obtain ⟨hstart, hstop, -⟩ := hlaid.cons
    refine fun u hu hs => ?_
    obtain rfl := List.mem_singleton.1 hu
    rw [Token.isTrivia, hkind] at hs
    rw [significantBounds, if_neg hs, ← htext]
    exact ⟨_, _, rfl, by omega, by omega⟩
  | .node kind children, lo, hi, ts, hlaid, h => by
    rw [Cst.leaves] at h
    have hwidths := widths_of_leavesAmong h
    rw [significantBounds]
    split
    · rename_i hempty
      intro t ht
      have hmem := hlaid.tiles.mem ht
      have hall := hlaid.widths_eq
      omega
    · exact coversAmong_of_leaves hlaid h

private theorem coversAmong_of_leaves :
    ∀ {cs : List Cst} {lo hi : Nat} {ts : List Token}, Laid lo hi ts →
    Cst.leavesAmong cs = ts.map Token.content → Covers (significantBoundsAmong lo cs) ts
  | [], lo, hi, ts, hlaid, h => by
    rw [List.map_eq_nil_iff.1 h.symm]
    exact fun t ht => nomatch ht
  | c :: cs, lo, hi, ts, hlaid, h => by
    obtain ⟨front, back, rfl, hfront, hback⟩ := List.map_eq_append_iff.1 h.symm
    obtain ⟨mid, hlaid', hlaid'', hmid⟩ := hlaid.split
    rw [← width_of_leaves hfront.symm] at hmid
    subst hmid
    exact (covers_of_leaves hlaid' hfront.symm).append (coversAmong_of_leaves hlaid'' hback.symm)
end

theorem place_covers (hlaid : Laid lo hi ts) (hc : c.leaves = ts.map Token.content) (ht : t ∈ ts)
    (hs : ¬ t.isTrivia) : lo ≤ (place lo c).offset ∧ (place lo c).offset ≤ t.start ∧
      t.stop ≤ (place lo c).stop ∧ (place lo c).stop ≤ hi := by
  obtain ⟨s, e, hbounds, hstart, hstop⟩ := covers_of_leaves hlaid hc t ht hs
  have hmem := significantBounds_mem hbounds
  have hwidth := hlaid.widths_eq
  have havailable := hlaid.available
  rw [← width_of_leaves hc] at hwidth
  obtain ⟨hoffset, hend⟩ := place_bounds hbounds (by omega)
  omega

end Covers

end SourceModel.Calc
