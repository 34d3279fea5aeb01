import SourceModel.Fault
import SourceModel.Text.Bytes
import SourceModel.Word

/-!
# Text regions

A region is a half-open interval `[offset, stop)` of byte offsets. Offsets are 64-bit numbers, the
greatest of which marks an offset that is not available, so no bound of a region is that marker or
greater. `Region.make?` and `Region.ofBounds?` state when an interval is a region, and
`Region.cover` is the least region that contains two others.
-/

namespace SourceModel

/-- Marker for an offset that is not available: the greatest 64-bit number. -/
def naOffset : Nat := 18446744073709551615

/-- An interval of source text. Its end stays below the marker. -/
structure Region where
  offset : Nat
  length : Nat
  stop_lt : offset + length < naOffset
deriving DecidableEq, Repr

namespace Region

instance : Inhabited Region := ⟨⟨0, 0, by decide⟩⟩

def stop (r : Region) : Nat := r.offset + r.length

/-- Why an interval is not a region. -/
inductive Defect where
  | offsetNotAvailable
  | stopNotAvailable
  | reversed (stop : Nat)
deriving DecidableEq, Repr

def Defect.message : Defect → String
  | offsetNotAvailable => "offset is NA_OFFSET"
  | stopNotAvailable => "end offset overflows or is NA_OFFSET"
  | reversed stop => s!"end offset {stop} precedes start offset"

private def reject (offset length : Nat) (defect : Defect) : Except Fault Region :=
  .error (.invalidRegion offset length defect.message)

/-- The region of `length` bytes from `offset` on. -/
def make? (offset length : Nat) : Except Fault Region :=
  if h : offset + length < naOffset then .ok ⟨offset, length, h⟩
  else if offset = naOffset then reject offset length .offsetNotAvailable
  else reject offset length .stopNotAvailable

def ofBounds? (start stop : Nat) : Except Fault Region :=
  if stop < start then reject start 0 (.reversed stop) else make? start (stop - start)

def empty? (offset : Nat) : Except Fault Region := make? offset 0

def isEmpty (r : Region) : Bool := r.length == 0

def contains (r : Region) (offset : Nat) : Bool := r.offset ≤ offset && offset < r.stop

/-- Whether `offset` lies in the region or at its end. -/
def touches (r : Region) (offset : Nat) : Bool := r.offset ≤ offset && offset ≤ r.stop

/-- Whether the bounds of `s` lie within those of `r`. -/
def containsRegion (r s : Region) : Bool := r.offset ≤ s.offset && s.stop ≤ r.stop

theorem containsRegion_iff {r s : Region} :
    r.containsRegion s = true ↔ r.offset ≤ s.offset ∧ s.stop ≤ r.stop := by
  simp [containsRegion]

theorem containsRegion_refl (r : Region) : r.containsRegion r = true :=
  containsRegion_iff.2 ⟨Nat.le_refl _, Nat.le_refl _⟩

theorem containsRegion_trans {r s t : Region} (h : r.containsRegion s = true)
    (h' : s.containsRegion t = true) : r.containsRegion t = true := by
  rw [containsRegion_iff] at h h' ⊢
  exact ⟨Nat.le_trans h.1 h'.1, Nat.le_trans h'.2 h.2⟩

/-- Whether each region starts before the other one ends. -/
def intersects (r s : Region) : Bool := r.offset < s.stop && s.offset < r.stop

/-- The least region that contains both. -/
def cover (r s : Region) : Region where
  offset := min r.offset s.offset
  length := max r.stop s.stop - min r.offset s.offset
  stop_lt := by
    have hr := r.stop_lt
    have hs := s.stop_lt
    simp only [stop]
    omega

def compare (r s : Region) : Ordering :=
  (Ord.compare r.offset s.offset).then (Ord.compare r.length s.length)

/-- The region's part of a text, if the region lies inside and splits no character. -/
def slice? (r : Region) (text : String) : Option String := Text.slice? text r.offset r.stop

/-- Bounds as 32-bit numbers, if they fit. -/
def toBounds32? (r : Region) : Option (Nat × Nat) :=
  if r.stop < halfWordLimit then some (r.offset, r.stop) else none

def display (r : Region) : String := s!"[{r.offset}, {r.stop})"

/-- Written form of a region that names its parts. -/
def inspect (r : Region) : String :=
  "TextRegion \x7b offset: " ++ toString r.offset ++ ", length: " ++ toString r.length ++ " \x7d"

@[simp] theorem stop_mk (offset length : Nat) (h : offset + length < naOffset) :
    (Region.mk offset length h).stop = offset + length := rfl

theorem offset_le_stop (r : Region) : r.offset ≤ r.stop := Nat.le_add_right _ _

theorem stop_lt_naOffset (r : Region) : r.stop < naOffset := r.stop_lt

theorem make?_eq_ok_iff {offset length : Nat} {r : Region} :
    make? offset length = .ok r ↔ r.offset = offset ∧ r.length = length := by
  unfold make?
  split
  · rename_i h
    constructor
    · intro e
      cases e
      exact ⟨rfl, rfl⟩
    · rintro ⟨rfl, rfl⟩
      rfl
  · rename_i h
    constructor
    · intro e
      split at e <;> cases e
    · rintro ⟨rfl, rfl⟩
      exact absurd r.stop_lt h

theorem ofBounds?_eq_ok_iff {start stop : Nat} {r : Region} :
    ofBounds? start stop = .ok r ↔ r.offset = start ∧ r.stop = stop := by
  unfold ofBounds?
  split
  · rename_i h
    constructor
    · intro e
      cases e
    · rintro ⟨rfl, rfl⟩
      have := r.offset_le_stop
      omega
  · rename_i h
    rw [make?_eq_ok_iff]
    unfold Region.stop
    constructor <;> rintro ⟨rfl, h'⟩ <;> refine ⟨rfl, ?_⟩ <;> omega

theorem eq_of_bounds {r s : Region} (hoffset : r.offset = s.offset) (hstop : r.stop = s.stop) :
    r = s := by
  have hr := ofBounds?_eq_ok_iff.2 ⟨hoffset, hstop⟩
  rw [ofBounds?_eq_ok_iff.2 ⟨rfl, rfl⟩] at hr
  exact (Except.ok.inj hr).symm

theorem toOption_ofBounds?_eq_some_iff {start stop : Nat} {r : Region} :
    (ofBounds? start stop).toOption = some r ↔ r.offset = start ∧ r.stop = stop := by
  rw [← ofBounds?_eq_ok_iff]
  cases ofBounds? start stop <;> simp [Except.toOption]

@[simp] theorem cover_offset (r s : Region) : (r.cover s).offset = min r.offset s.offset := rfl

@[simp] theorem cover_stop (r s : Region) : (r.cover s).stop = max r.stop s.stop := by
  have := r.offset_le_stop
  have := s.offset_le_stop
  simp only [cover, stop_mk]
  omega

end Region

end SourceModel
