/-!
# Text measured in bytes

Positions in source text are byte offsets into its UTF-8 form. This module measures characters
in bytes and cuts text at byte offsets. A cut that would split a character, or that lies behind
the end, has no result. The main statements say that a successful cut loses nothing and that the
front part of it has the requested size.
-/

namespace SourceModel.Text

/-- Number of bytes that the characters take in UTF-8. -/
def byteCount : List Char → Nat
  | [] => 0
  | c :: cs => c.utf8Size + byteCount cs

@[simp] theorem byteCount_nil : byteCount [] = 0 := rfl

@[simp] theorem byteCount_cons (c : Char) (cs : List Char) :
    byteCount (c :: cs) = c.utf8Size + byteCount cs := rfl

@[simp] theorem byteCount_append (cs ds : List Char) :
    byteCount (cs ++ ds) = byteCount cs + byteCount ds := by
  induction cs with
  | nil => simp
  | cons c cs ih => simp [ih, Nat.add_assoc]

theorem length_le_byteCount (cs : List Char) : cs.length ≤ byteCount cs := by
  induction cs with
  | nil => simp
  | cons c cs ih =>
    have := c.utf8Size_pos
    simp only [List.length_cons, byteCount_cons]
    omega

theorem byteCount_pos {cs : List Char} (h : cs ≠ []) : 0 < byteCount cs := by
  cases cs with
  | nil => exact absurd rfl h
  | cons c cs =>
    have := c.utf8Size_pos
    simp only [byteCount_cons]
    omega

def size (text : String) : Nat := byteCount text.toList

@[simp] theorem size_ofList (cs : List Char) : size (String.ofList cs) = byteCount cs := by
  simp [size]

/-- The characters split after the first `n` bytes, if a character ends there. -/
def splitBytes? : Nat → List Char → Option (List Char × List Char)
  | 0, cs => some ([], cs)
  | _ + 1, [] => none
  | n + 1, c :: cs =>
    if c.utf8Size ≤ n + 1 then
      (splitBytes? (n + 1 - c.utf8Size) cs).map fun (front, rest) => (c :: front, rest)
    else none

theorem splitBytes?_eq_some_iff {n : Nat} {cs front rest : List Char} :
    splitBytes? n cs = some (front, rest) ↔ cs = front ++ rest ∧ byteCount front = n := by
  fun_induction splitBytes? n cs generalizing front rest with
  | case1 cs =>
    constructor
    · rintro h
      simp only [Option.some.injEq, Prod.mk.injEq] at h
      simp [← h.1, ← h.2]
    · rintro ⟨rfl, h⟩
      cases front with
      | nil => simp
      | cons c front =>
        have := c.utf8Size_pos
        simp only [byteCount_cons] at h
        omega
  | case2 n =>
    constructor
    · simp
    · rintro ⟨h, hn⟩
      have : front = [] := by
        cases front with
        | nil => rfl
        | cons c front => simp at h
      simp [this] at hn
  | case3 n c cs hc ih =>
    have hpos := c.utf8Size_pos
    constructor
    · intro h
      obtain ⟨⟨f, r⟩, hf, he⟩ := Option.map_eq_some_iff.1 h
      simp only [Prod.mk.injEq] at he
      obtain ⟨rfl, rfl⟩ := he
      obtain ⟨rfl, hb⟩ := ih.1 hf
      refine ⟨rfl, ?_⟩
      simp only [byteCount_cons]
      omega
    · rintro ⟨h, hn⟩
      cases front with
      | nil => simp at hn
      | cons d front =>
        simp only [List.cons_append, List.cons.injEq] at h
        obtain ⟨rfl, rfl⟩ := h
        simp only [byteCount_cons] at hn
        refine Option.map_eq_some_iff.2 ⟨(front, rest), ih.2 ⟨rfl, ?_⟩, rfl⟩
        omega
  | case4 n c cs hc =>
    constructor
    · simp
    · rintro ⟨h, hn⟩
      cases front with
      | nil => simp at hn
      | cons d front =>
        simp only [List.cons_append, List.cons.injEq] at h
        obtain ⟨rfl, rfl⟩ := h
        simp only [byteCount_cons] at hn
        omega

/-- Text before `start`, from `start` to `stop`, and behind `stop`. There is no result when the
bounds are reversed, lie behind the end or split a character. -/
def cut? (text : String) (start stop : Nat) : Option (String × String × String) :=
  if start ≤ stop then do
    let (front, rest) ← splitBytes? start text.toList
    let (middle, back) ← splitBytes? (stop - start) rest
    some (String.ofList front, String.ofList middle, String.ofList back)
  else none

theorem cut?_eq_some_iff {text front middle back : String} {start stop : Nat} :
    cut? text start stop = some (front, middle, back) ↔
      text = front ++ middle ++ back ∧ size front = start ∧ size front + size middle = stop := by
  constructor
  · intro h
    unfold cut? at h
    split at h
    · rename_i hle
      simp only [Option.bind_eq_bind, Option.bind_eq_some_iff, Prod.exists,
        Option.some.injEq, Prod.mk.injEq] at h
      obtain ⟨f, r, hf, m, b, hm, rfl, rfl, rfl⟩ := h
      obtain ⟨hf, hfb⟩ := splitBytes?_eq_some_iff.1 hf
      obtain ⟨rfl, hmb⟩ := splitBytes?_eq_some_iff.1 hm
      refine ⟨?_, by simpa using hfb, ?_⟩
      · apply String.toList_injective
        simp [hf]
      · simp only [size_ofList]
        omega
    · cases h
  · rintro ⟨rfl, rfl, rfl⟩
    have hf : splitBytes? (size front) (front.toList ++ (middle.toList ++ back.toList)) =
        some (front.toList, middle.toList ++ back.toList) :=
      splitBytes?_eq_some_iff.2 ⟨rfl, rfl⟩
    have hm : splitBytes? (size middle) (middle.toList ++ back.toList) =
        some (middle.toList, back.toList) :=
      splitBytes?_eq_some_iff.2 ⟨rfl, rfl⟩
    simp [cut?, hf, hm]

def slice? (text : String) (start stop : Nat) : Option String :=
  (cut? text start stop).map fun (_, middle, _) => middle

theorem slice?_eq_some_iff {text middle : String} {start stop : Nat} :
    slice? text start stop = some middle ↔
      ∃ front back, text.toList = front ++ (middle.toList ++ back) ∧ byteCount front = start ∧
        start + size middle = stop := by
  simp only [slice?, Option.map_eq_some_iff, Prod.exists, cut?_eq_some_iff]
  constructor
  · rintro ⟨front, _, back, ⟨rfl, rfl, rfl⟩, rfl⟩
    exact ⟨front.toList, back.toList, by simp, rfl, rfl⟩
  · rintro ⟨front, back, htext, rfl, rfl⟩
    refine ⟨String.ofList front, middle, String.ofList back, ⟨?_, by simp, by simp⟩, rfl⟩
    apply String.toList_injective
    simp [htext]

/-- What is cut off a part of a text is cut off the text. -/
theorem slice?_slice? {text middle inner : String} {start stop lo hi : Nat}
    (h : slice? text start stop = some middle) (h' : slice? middle lo hi = some inner) :
    slice? text (start + lo) (start + hi) = some inner := by
  obtain ⟨front, back, htext, rfl, -⟩ := slice?_eq_some_iff.1 h
  obtain ⟨front', back', hmiddle, rfl, rfl⟩ := slice?_eq_some_iff.1 h'
  refine slice?_eq_some_iff.2 ⟨front ++ front', back' ++ back, ?_, byteCount_append .., ?_⟩
  · simp [htext, hmiddle]
  · rw [Nat.add_assoc]

/-- The text with `new` in place of what lies from `start` to `stop`. -/
def replace? (text : String) (start stop : Nat) (new : String) : Option String :=
  (cut? text start stop).map fun (front, _, back) => front ++ new ++ back

/-- The character that starts at `offset`. -/
def charFrom? (text : String) (offset : Nat) : Option Char := do
  let (_, rest) ← splitBytes? offset text.toList
  rest.head?

/-- The character that ends at `offset`. -/
def charTo? (text : String) (offset : Nat) : Option Char := do
  let (front, _) ← splitBytes? offset text.toList
  front.getLast?

theorem charTo?_eq_some_iff {text : String} {offset : Nat} {c : Char} :
    charTo? text offset = some c ↔
      ∃ front back, text.toList = front ++ c :: back ∧ byteCount front + c.utf8Size = offset := by
  simp only [charTo?, Option.bind_eq_bind, Option.bind_eq_some_iff, Prod.exists,
    splitBytes?_eq_some_iff, List.getLast?_eq_some_iff]
  constructor
  · rintro ⟨_, back, ⟨htext, hcount⟩, front, rfl⟩
    exact ⟨front, back, by simp [htext], by simpa using hcount⟩
  · rintro ⟨front, back, htext, hcount⟩
    exact ⟨front ++ [c], back, ⟨by simp [htext], by simpa using hcount⟩, front, rfl⟩

end SourceModel.Text
