import Mathlib.Data.UInt
import Mathlib.Order.Defs.Unbundled
import SourceModel.Region

/-!
# Regions on machine words

The bounds of a region are 64-bit numbers, and sums and differences of such numbers wrap. As the end
of a region stays below the marker, none of those that are computed from regions wraps, and the
machine comes to what the regions say. This holds of covers too, which are not checked once more.

Regions are ordered by containment, where covers are the least upper bounds. An empty region has no
offsets, so only for regions that are not empty the offsets decide what contains or meets what.
-/

namespace SourceModel

/-! ## Order -/

namespace Region

variable {r s t : Region} {offset length start stop : Nat}

theorem isPartialOrder_containsRegion :
    IsPartialOrder Region fun r s => s.containsRegion r = true where
  refl := containsRegion_refl
  trans _ _ _ h h' := containsRegion_trans h' h
  antisymm r s h h' := by
    rw [containsRegion_iff] at h h'
    exact eq_of_bounds (Nat.le_antisymm h'.1 h.1) (Nat.le_antisymm h.2 h'.2)

theorem containsRegion_cover_iff : t.containsRegion (r.cover s) = true ↔
    t.containsRegion r = true ∧ t.containsRegion s = true := by
  simp only [containsRegion_iff, cover_offset, cover_stop, Nat.le_min, Nat.max_le]
  exact and_and_and_comm

theorem contains_iff : r.contains offset = true ↔ r.offset ≤ offset ∧ offset < r.stop := by
  simp [contains]

theorem intersects_iff : r.intersects s = true ↔ r.offset < s.stop ∧ s.offset < r.stop := by
  simp [intersects]

theorem offset_lt_stop (h : r.isEmpty = false) : r.offset < r.stop :=
  Nat.lt_add_of_pos_right (Nat.pos_of_ne_zero fun hlength => by simp [isEmpty, hlength] at h)

theorem intersects_iff_exists (hr : r.isEmpty = false) (hs : s.isEmpty = false) :
    r.intersects s = true ↔ ∃ offset, r.contains offset = true ∧ s.contains offset = true := by
  have hr := offset_lt_stop hr
  have hs := offset_lt_stop hs
  simp only [intersects_iff, contains_iff]
  constructor
  · rintro ⟨hrs, hsr⟩
    exact ⟨max r.offset s.offset, ⟨Nat.le_max_left _ _, by omega⟩, Nat.le_max_right _ _, by omega⟩
  · rintro ⟨offset, hr', hs'⟩
    omega

theorem containsRegion_iff_forall (hs : s.isEmpty = false) :
    r.containsRegion s = true ↔ ∀ offset, s.contains offset = true → r.contains offset = true := by
  have hs := offset_lt_stop hs
  simp only [containsRegion_iff, contains_iff]
  constructor
  · intro h offset hoffset
    omega
  · intro h
    have hfirst := h s.offset ⟨Nat.le_refl _, hs⟩
    have hlast := h (s.stop - 1) ⟨by omega, by omega⟩
    omega

/-! ## Bounds -/

theorem exists_make?_iff :
    (∃ r, make? offset length = .ok r ∧ r.offset = offset ∧ r.length = length) ↔
      offset ≠ naOffset ∧ offset + length ≠ naOffset ∧ offset + length < wordLimit := by
  have hlimit : naOffset + 1 = wordLimit := rfl
  constructor
  · rintro ⟨r, -, rfl, rfl⟩
    have hstop := r.stop_lt
    omega
  · rintro ⟨-, hne, hlt⟩
    exact ⟨⟨offset, length, by omega⟩, make?_eq_ok_iff.2 ⟨rfl, rfl⟩, rfl, rfl⟩

theorem exists_ofBounds?_iff :
    (∃ r, ofBounds? start stop = .ok r ∧ r.offset = start ∧ r.stop = stop) ↔
      start ≤ stop ∧ start ≠ naOffset ∧ stop ≠ naOffset ∧ stop < wordLimit := by
  have hlimit : naOffset + 1 = wordLimit := rfl
  constructor
  · rintro ⟨r, -, rfl, rfl⟩
    have hle := r.offset_le_stop
    have hstop := r.stop_lt_naOffset
    omega
  · rintro ⟨hle, -, hne, hlt⟩
    have hstop : start + (stop - start) = stop := Nat.add_sub_of_le hle
    have hr : ofBounds? start stop = .ok ⟨start, stop - start, by omega⟩ :=
      ofBounds?_eq_ok_iff.2 ⟨rfl, hstop⟩
    exact ⟨_, hr, rfl, hstop⟩

end Region

/-! ## Machine words -/

/-- The bounds of a region as the machine has them. -/
structure WordRegion where
  offset : UInt64
  length : UInt64
deriving DecidableEq, Repr

namespace WordRegion

def naWord : UInt64 := UInt64.ofNat naOffset

def checkedSum? (a b : UInt64) : Option UInt64 :=
  if a.toNat + b.toNat < wordLimit then some (a + b) else none

def reject (offset length : UInt64) (defect : Region.Defect) : Except Fault WordRegion :=
  .error (.invalidRegion offset.toNat length.toNat defect.message)

def make? (offset length : UInt64) : Except Fault WordRegion :=
  if offset = naWord then reject offset length .offsetNotAvailable
  else
    match checkedSum? offset length with
    | some stop =>
      if stop = naWord then reject offset length .stopNotAvailable else .ok ⟨offset, length⟩
    | none => reject offset length .stopNotAvailable

def ofBounds? (start stop : UInt64) : Except Fault WordRegion :=
  if stop < start then reject start 0 (.reversed stop.toNat) else make? start (stop - start)

def empty? (offset : UInt64) : Except Fault WordRegion := make? offset 0

/-- The region of a range of 32-bit offsets, which is not checked. -/
def ofRange (start stop : UInt32) : WordRegion := ⟨start.toUInt64, (stop - start).toUInt64⟩

def stop (w : WordRegion) : UInt64 := w.offset + w.length

def contains (w : WordRegion) (offset : UInt64) : Bool := w.offset ≤ offset && offset < w.stop

def touches (w : WordRegion) (offset : UInt64) : Bool := w.offset ≤ offset && offset ≤ w.stop

def containsRegion (v w : WordRegion) : Bool := v.offset ≤ w.offset && w.stop ≤ v.stop

def intersects (v w : WordRegion) : Bool := v.offset < w.stop && w.offset < v.stop

def cover (v w : WordRegion) : WordRegion :=
  let start := min v.offset w.offset
  let stop := max v.stop w.stop
  ⟨start, stop - start⟩

/-- The ways to come by a region. A range ends no earlier than it starts. -/
inductive Obtained : WordRegion → Prop
  | make {offset length : UInt64} {w : WordRegion} : make? offset length = .ok w → Obtained w
  | bounds {start stop : UInt64} {w : WordRegion} : ofBounds? start stop = .ok w → Obtained w
  | empty {offset : UInt64} {w : WordRegion} : empty? offset = .ok w → Obtained w
  | range {start stop : UInt32} : start ≤ stop → Obtained (ofRange start stop)
  | cover {v w : WordRegion} : Obtained v → Obtained w → Obtained (v.cover w)

end WordRegion

def Region.words (r : Region) : WordRegion := ⟨UInt64.ofNat r.offset, UInt64.ofNat r.length⟩

namespace WordRegion

theorem toNat_ofNat_of_lt_na {n : Nat} (h : n < naOffset) : (UInt64.ofNat n).toNat = n :=
  UInt64.toNat_ofNat_of_lt' (Nat.lt_trans h (by decide))

theorem eq_naWord_iff {a : UInt64} : a = naWord ↔ a.toNat = naOffset := by
  rw [← UInt64.toNat_inj]
  rfl

theorem words_mk {offset length : UInt64} (h : offset.toNat + length.toNat < naOffset) :
    (Region.mk offset.toNat length.toNat h).words = ⟨offset, length⟩ := by
  simp only [Region.words, UInt64.ofNat_toNat]

section Words

variable {r s : Region}

@[simp] theorem toNat_offset_words (r : Region) : r.words.offset.toNat = r.offset :=
  toNat_ofNat_of_lt_na (Nat.lt_of_le_of_lt (Nat.le_add_right _ _) r.stop_lt)

@[simp] theorem toNat_length_words (r : Region) : r.words.length.toNat = r.length :=
  toNat_ofNat_of_lt_na (Nat.lt_of_le_of_lt (Nat.le_add_left _ _) r.stop_lt)

@[simp] theorem toNat_stop_words (r : Region) : r.words.stop.toNat = r.stop := by
  have hlt : r.offset + r.length < 2 ^ 64 := Nat.lt_trans r.stop_lt (by decide)
  rw [stop, UInt64.toNat_add, toNat_offset_words, toNat_length_words, Nat.mod_eq_of_lt hlt]
  rfl

theorem cover_words (r s : Region) : r.words.cover s.words = (r.cover s).words := by
  have hstart : (min r.words.offset s.words.offset).toNat = min r.offset s.offset := by
    rw [UInt64.toNat_min, toNat_offset_words, toNat_offset_words]
  have hstop : (max r.words.stop s.words.stop).toNat = max r.stop s.stop := by
    rw [UInt64.toNat_max, toNat_stop_words, toNat_stop_words]
  have hle : min r.words.offset s.words.offset ≤ max r.words.stop s.words.stop := by
    have hr := r.offset_le_stop
    rw [UInt64.le_iff_toNat_le, hstart, hstop]
    omega
  have hlength := UInt64.toNat_sub_of_le _ _ hle
  rw [hstart, hstop] at hlength
  rw [cover, WordRegion.mk.injEq, ← UInt64.toNat_inj, ← UInt64.toNat_inj, hstart, hlength]
  exact ⟨(toNat_offset_words (r.cover s)).symm, (toNat_length_words (r.cover s)).symm⟩

end Words

/-! ## Regions from words -/

theorem make?_eq (offset length : UInt64) :
    make? offset length = (Region.make? offset.toNat length.toNat).map Region.words := by
  have hlimit : naOffset + 1 = wordLimit := rfl
  by_cases hfits : offset.toNat + length.toNat < naOffset
  · have hoffset : offset ≠ naWord := by
      rw [ne_eq, eq_naWord_iff]
      omega
    have hsum : (offset + length).toNat = offset.toNat + length.toNat := by
      rw [UInt64.toNat_add, Nat.mod_eq_of_lt (Nat.lt_trans hfits (by decide))]
    have hstop : offset + length ≠ naWord := by
      rw [ne_eq, eq_naWord_iff, hsum]
      omega
    have hchecked : checkedSum? offset length = some (offset + length) := if_pos (by omega)
    rw [make?, if_neg hoffset, hchecked, Region.make?, dif_pos hfits, Except.map, words_mk]
    exact if_neg hstop
  · rw [make?, Region.make?, dif_neg hfits]
    by_cases hoffset : offset = naWord
    · rw [if_pos hoffset, if_pos (eq_naWord_iff.1 hoffset)]
      rfl
    · rw [if_neg hoffset, if_neg fun h => hoffset (eq_naWord_iff.2 h)]
      by_cases hsum : offset.toNat + length.toNat < wordLimit
      · have hstop : offset + length = naWord := by
          have hword : offset.toNat + length.toNat < 2 ^ 64 := hsum
          rw [eq_naWord_iff, UInt64.toNat_add, Nat.mod_eq_of_lt hword]
          omega
        rw [checkedSum?, if_pos hsum]
        exact if_pos hstop
      · rw [checkedSum?, if_neg hsum]
        rfl

theorem ofBounds?_eq (start stop : UInt64) :
    ofBounds? start stop = (Region.ofBounds? start.toNat stop.toNat).map Region.words := by
  rw [ofBounds?, Region.ofBounds?]
  by_cases hlt : stop < start
  · rw [if_pos hlt, if_pos (UInt64.lt_iff_toNat_lt.1 hlt)]
    rfl
  · have hle : start.toNat ≤ stop.toNat :=
      Nat.le_of_not_lt fun h => hlt (UInt64.lt_iff_toNat_lt.2 h)
    have hsub := UInt64.toNat_sub_of_le stop start (UInt64.le_iff_toNat_le.2 hle)
    rw [if_neg hlt, if_neg (Nat.not_lt.2 hle), make?_eq, hsub]

theorem ofRange_eq {start stop : UInt32} (h : start ≤ stop) :
    ∃ r : Region, ofRange start stop = r.words ∧ r.offset = start.toNat ∧ r.stop = stop.toNat := by
  have hle := UInt32.le_iff_toNat_le.1 h
  have hstop : start.toUInt64.toNat + (stop - start).toUInt64.toNat = stop.toNat := by
    rw [UInt32.toNat_toUInt64, UInt32.toNat_toUInt64, UInt32.toNat_sub_of_le _ _ h]
    omega
  have hlt : start.toUInt64.toNat + (stop - start).toUInt64.toNat < naOffset :=
    hstop ▸ Nat.lt_trans stop.toNat_lt (by decide)
  exact ⟨⟨_, _, hlt⟩, (words_mk hlt).symm, UInt32.toNat_toUInt64 start, hstop⟩

theorem eq_words_of_map {outcome : Except Fault Region} {w : WordRegion}
    (h : outcome.map Region.words = .ok w) : ∃ r : Region, w = r.words := by
  cases outcome with
  | error fault => cases h
  | ok r => exact ⟨r, (Except.ok.inj h).symm⟩

/-- All regions that can be obtained are regions. -/
theorem Obtained.exists_words {w : WordRegion} (h : Obtained w) : ∃ r : Region, w = r.words := by
  induction h with
  | @make offset length w hw => exact eq_words_of_map ((make?_eq offset length).symm.trans hw)
  | @bounds start stop w hw => exact eq_words_of_map ((ofBounds?_eq start stop).symm.trans hw)
  | @empty offset w hw => exact eq_words_of_map ((make?_eq offset 0).symm.trans hw)
  | range hle =>
    obtain ⟨r, hr, -⟩ := ofRange_eq hle
    exact ⟨r, hr⟩
  | cover _ _ ih ih' =>
    obtain ⟨r, rfl⟩ := ih
    obtain ⟨s, rfl⟩ := ih'
    exact ⟨r.cover s, cover_words r s⟩

/-- What the machine makes of two regions is what they say: none of its sums and differences
wraps. -/
structure Computes (r s : Region) : Prop where
  stop : r.words.stop.toNat = r.stop
  contains : ∀ offset, r.words.contains offset = r.contains offset.toNat
  touches : ∀ offset, r.words.touches offset = r.touches offset.toNat
  containsRegion : r.words.containsRegion s.words = r.containsRegion s
  intersects : r.words.intersects s.words = r.intersects s
  cover : r.words.cover s.words = (r.cover s).words

theorem computes (r s : Region) : Computes r s where
  stop := toNat_stop_words r
  contains offset := by
    simp [contains, Region.contains, UInt64.le_iff_toNat_le, UInt64.lt_iff_toNat_lt]
  touches offset := by
    simp [touches, Region.touches, UInt64.le_iff_toNat_le]
  containsRegion := by
    simp [containsRegion, Region.containsRegion, UInt64.le_iff_toNat_le]
  intersects := by
    simp [intersects, Region.intersects, UInt64.lt_iff_toNat_lt]
  cover := cover_words r s

/-- Covers are least upper bounds for containment. A region that is not empty is contained if its
offsets are, and two such regions intersect if they share an offset. -/
structure Orders (r s : Region) : Prop where
  cover : ∀ t : Region, t.containsRegion (r.cover s) = true ↔
    t.containsRegion r = true ∧ t.containsRegion s = true
  intersects : r.isEmpty = false → s.isEmpty = false →
    (r.intersects s = true ↔ ∃ offset, r.contains offset = true ∧ s.contains offset = true)
  containsRegion : s.isEmpty = false →
    (r.containsRegion s = true ↔
      ∀ offset, s.contains offset = true → r.contains offset = true)

theorem orders (r s : Region) : Orders r s where
  cover _ := Region.containsRegion_cover_iff
  intersects := Region.intersects_iff_exists
  containsRegion := Region.containsRegion_iff_forall

theorem obtained_iff {w : WordRegion} : Obtained w ↔ ∃ r : Region, w = r.words := by
  refine ⟨Obtained.exists_words, ?_⟩
  rintro ⟨r, rfl⟩
  have hmake : Region.make? r.words.offset.toNat r.words.length.toNat = .ok r :=
    Region.make?_eq_ok_iff.2 ⟨(toNat_offset_words r).symm, (toNat_length_words r).symm⟩
  have hwords : make? r.words.offset r.words.length = .ok r.words := by
    rw [make?_eq, hmake]
    rfl
  exact .make hwords

/-- Bounds make a region just if they are numbers of 64 bits that are available and come in order.
Every region that the machine obtains is such a region, none of its sums and differences wraps, and
regions are ordered as intervals are. -/
theorem obtained_ordered :
    (∀ offset length,
        (∃ r, Region.make? offset length = .ok r ∧ r.offset = offset ∧ r.length = length) ↔
          offset ≠ naOffset ∧ offset + length ≠ naOffset ∧ offset + length < wordLimit) ∧
      (∀ start stop,
        (∃ r, Region.ofBounds? start stop = .ok r ∧ r.offset = start ∧ r.stop = stop) ↔
          start ≤ stop ∧ start ≠ naOffset ∧ stop ≠ naOffset ∧ stop < wordLimit) ∧
      (∀ offset length,
        make? offset length = (Region.make? offset.toNat length.toNat).map Region.words) ∧
      (∀ start stop,
        ofBounds? start stop = (Region.ofBounds? start.toNat stop.toNat).map Region.words) ∧
      (∀ w, Obtained w → w.offset.toNat + w.length.toNat < naOffset ∧
        w.stop.toNat = w.offset.toNat + w.length.toNat ∧ ∃ r : Region, w = r.words) ∧
      IsPartialOrder Region (fun r s => s.containsRegion r = true) ∧
      ∀ r s, Computes r s ∧ Orders r s := by
  refine ⟨fun _ _ => Region.exists_make?_iff, fun _ _ => Region.exists_ofBounds?_iff, make?_eq,
    ofBounds?_eq, fun w hw => ?_, Region.isPartialOrder_containsRegion,
    fun r s => ⟨computes r s, orders r s⟩⟩
  obtain ⟨r, rfl⟩ := hw.exists_words
  rw [toNat_stop_words, toNat_offset_words, toNat_length_words]
  exact ⟨r.stop_lt, rfl, r, rfl⟩

/-- The region that ends right before the marker, together with an empty range at zero. -/
theorem obtained_ordered_last :
    let w := (Region.mk (naOffset - 2) 1 (by decide)).words.cover (ofRange 0 0)
    Obtained w ∧ w.offset.toNat + w.length.toNat < naOffset ∧
      w.stop.toNat = w.offset.toNat + w.length.toNat := by
  intro w
  have hlast : Obtained (Region.mk (naOffset - 2) 1 (by decide)).words := obtained_iff.2 ⟨_, rfl⟩
  have hcover : Obtained w := hlast.cover (.range (by decide))
  obtain ⟨-, -, -, -, hobtained, -⟩ := obtained_ordered
  obtain ⟨hlt, hstop, -⟩ := hobtained w hcover
  exact ⟨hcover, hlt, hstop⟩

end WordRegion

end SourceModel
