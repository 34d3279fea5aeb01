/-!
# Hexadecimal numbers
-/

namespace SourceModel.Text

/-- Digits of a number in base sixteen, with zeros in front up to `width` places. -/
private def hexDigits (width n : Nat) : List Char :=
  let digits := Nat.toDigits 16 n
  List.replicate (width - digits.length) '0' ++ digits

/-- Hexadecimal number with small letters, at least `width` places wide. -/
def hex (width n : Nat) : String := String.ofList (hexDigits width n)

/-- Hexadecimal number with capital letters, at least `width` places wide. -/
def hexUpper (width n : Nat) : String := String.ofList ((hexDigits width n).map Char.toUpper)

/-- The places of a number in any base are digits below the base. -/
theorem exists_digit_of_mem {base n : Nat} {c : Char} (hbase : 1 < base)
    (h : c ∈ Nat.toDigits base n) : ∃ digit < base, c = digit.digitChar := by
  induction n using Nat.strongRecOn with
  | _ n ih =>
    rw [Nat.toDigits_eq_if hbase] at h
    split at h
    · rename_i hlt
      exact ⟨n, hlt, List.mem_singleton.1 h⟩
    · rcases List.mem_append.1 h with h | h
      · exact ih (n / base) (Nat.div_lt_self (by omega) hbase) h
      · exact ⟨n % base, Nat.mod_lt n (by omega), List.mem_singleton.1 h⟩

private theorem exists_of_mem_hexDigits {width n : Nat} {c : Char} (h : c ∈ hexDigits width n) :
    ∃ digit : Fin 16, c = digit.val.digitChar := by
  rw [hexDigits, List.mem_append] at h
  rcases h with h | h
  · exact ⟨0, (List.mem_replicate.1 h).2⟩
  · obtain ⟨digit, hlt, rfl⟩ := exists_digit_of_mem (by decide) h
    exact ⟨⟨digit, hlt⟩, rfl⟩

theorem zero_le_of_mem_hex {width n : Nat} {c : Char} (h : c ∈ (hex width n).toList) :
    '0'.toNat ≤ c.toNat := by
  rw [hex, String.toList_ofList] at h
  obtain ⟨digit, rfl⟩ := exists_of_mem_hexDigits h
  have hall : ∀ digit : Fin 16, '0'.toNat ≤ digit.val.digitChar.toNat := by decide
  exact hall digit

theorem zero_le_of_mem_hexUpper {width n : Nat} {c : Char} (h : c ∈ (hexUpper width n).toList) :
    '0'.toNat ≤ c.toNat := by
  rw [hexUpper, String.toList_ofList, List.mem_map] at h
  obtain ⟨small, h, rfl⟩ := h
  obtain ⟨digit, rfl⟩ := exists_of_mem_hexDigits h
  have hall : ∀ digit : Fin 16, '0'.toNat ≤ digit.val.digitChar.toUpper.toNat := by decide
  exact hall digit

/-- Three places are enough for twelve bits. -/
theorem toList_hex_three {n : Nat} (h : n < 4096) :
    (hex 3 n).toList = [(n / 256).digitChar, (n / 16 % 16).digitChar, (n % 16).digitChar] := by
  rw [hex, String.toList_ofList, hexDigits]
  have hbase : 1 < 16 := by decide
  by_cases hone : n < 16
  · have hfirst : n / 256 = 0 := by omega
    have hsecond : n / 16 % 16 = 0 := by omega
    have hthird : n % 16 = n := by omega
    rw [Nat.toDigits_of_lt_base hone, hfirst, hsecond, hthird]
    rfl
  · by_cases htwo : n / 16 < 16
    · have hfirst : n / 256 = 0 := by omega
      have hsecond : n / 16 % 16 = n / 16 := by omega
      rw [Nat.toDigits_eq_if hbase, if_neg hone, Nat.toDigits_of_lt_base htwo, hfirst, hsecond]
      rfl
    · have hfirst : n / 16 / 16 = n / 256 := by omega
      have hlast : n / 256 < 16 := by omega
      rw [Nat.toDigits_eq_if hbase, if_neg hone, Nat.toDigits_eq_if hbase, if_neg htwo, hfirst,
        Nat.toDigits_of_lt_base hlast]
      rfl

end SourceModel.Text
