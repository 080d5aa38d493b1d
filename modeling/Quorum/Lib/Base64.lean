/-
Base64 with the URL alphabet and without padding, as `base64.RawURLEncoding` writes and reads it: three bytes are four
characters, and one or two bytes at the end are two or three. A reader passes over line ends and does not look at the
bits that a last character has too many.
-/
import Mathlib.Data.List.Basic

namespace Quorum

namespace Base64

/-- The character of six bits. -/
def char (v : Nat) : UInt8 :=
  if v < 26 then .ofNat (65 + v)
  else if v < 52 then .ofNat (97 + (v - 26))
  else if v < 62 then .ofNat (48 + (v - 52))
  else if v = 62 then 45
  else 95

/-- The six bits of a character of the alphabet. -/
def value (c : UInt8) : Option Nat :=
  let n := c.toNat
  if 65 ≤ n ∧ n ≤ 90 then some (n - 65)
  else if 97 ≤ n ∧ n ≤ 122 then some (n - 97 + 26)
  else if 48 ≤ n ∧ n ≤ 57 then some (n - 48 + 52)
  else if n = 45 then some 62
  else if n = 95 then some 63
  else none

/-- `EncodeToString`. -/
def encode : List UInt8 → List UInt8
  | [] => []
  | [a] => [char (a.toNat / 4), char (a.toNat % 4 * 16)]
  | [a, b] => [char (a.toNat / 4), char (a.toNat % 4 * 16 + b.toNat / 16), char (b.toNat % 16 * 4)]
  | a :: b :: c :: rest =>
    char (a.toNat / 4) :: char (a.toNat % 4 * 16 + b.toNat / 16) :: char (b.toNat % 16 * 4 + c.toNat / 64) ::
      char (c.toNat % 64) :: encode rest

/-- The bytes of four characters, or of the two or three at the end; one alone is an error. -/
def decodeGroups : List UInt8 → Option (List UInt8)
  | [] => some []
  | [_] => none
  | [w, x] => do
    let w ← value w
    let x ← value x
    return [.ofNat (w * 4 + x / 16)]
  | [w, x, y] => do
    let w ← value w
    let x ← value x
    let y ← value y
    return [.ofNat (w * 4 + x / 16), .ofNat (x % 16 * 16 + y / 4)]
  | w :: x :: y :: z :: rest => do
    let w ← value w
    let x ← value x
    let y ← value y
    let z ← value z
    let bytes ← decodeGroups rest
    return .ofNat (w * 4 + x / 16) :: .ofNat (x % 16 * 16 + y / 4) :: .ofNat (y % 4 * 64 + z) :: bytes

/-- `DecodeString`. -/
def decode (text : List UInt8) : Option (List UInt8) := decodeGroups (text.filter fun c => c ≠ 10 ∧ c ≠ 13)

/-! ## The alphabet -/

theorem value_char {v : Nat} (h : v < 64) : value (char v) = some v := by
  have hall : ∀ v : Fin 64, value (char v) = some (v : Nat) := by decide
  exact hall ⟨v, h⟩

theorem isSome_value_char (v : Nat) : (value (char v)).isSome = true := by
  by_cases h : v < 64
  · rw [value_char h]
    rfl
  · have hchar : char v = 95 := by
      unfold char
      rw [if_neg (by omega), if_neg (by omega), if_neg (by omega), if_neg (by omega)]
    rw [hchar]
    rfl

theorem isSome_value_of_mem_encode (l : List UInt8) : ∀ c ∈ encode l, (value c).isSome = true := by
  fun_induction encode l with
  | case1 => simp
  | case2 a => simp [isSome_value_char]
  | case3 a b => simp [isSome_value_char]
  | case4 a b c rest ih => simpa [isSome_value_char] using ih

theorem not_mem_encode {c : UInt8} (h : value c = none) (l : List UInt8) : c ∉ encode l := by
  intro hmem
  have hsome := isSome_value_of_mem_encode l c hmem
  rw [h] at hsome
  cases hsome

/-! ## The round trip -/

theorem ofNat_eq {a : UInt8} {n : Nat} (h : n = a.toNat) : UInt8.ofNat n = a := by
  rw [h, UInt8.ofNat_toNat]

theorem decodeGroups_encode (l : List UInt8) : decodeGroups (encode l) = some l := by
  fun_induction encode l with
  | case1 => rfl
  | case2 a =>
    have ha := a.toNat_lt
    have hfirst : UInt8.ofNat (a.toNat / 4 * 4 + a.toNat % 4 * 16 / 16) = a := ofNat_eq (by omega)
    rw [decodeGroups, value_char (by omega), value_char (by omega)]
    show some [_] = some [a]
    rw [hfirst]
  | case3 a b =>
    have ha := a.toNat_lt
    have hb := b.toNat_lt
    have hfirst : UInt8.ofNat (a.toNat / 4 * 4 + (a.toNat % 4 * 16 + b.toNat / 16) / 16) = a := ofNat_eq (by omega)
    have hsecond : UInt8.ofNat ((a.toNat % 4 * 16 + b.toNat / 16) % 16 * 16 + b.toNat % 16 * 4 / 4) = b :=
      ofNat_eq (by omega)
    rw [decodeGroups, value_char (by omega), value_char (by omega), value_char (by omega)]
    show some [_, _] = some [a, b]
    rw [hfirst, hsecond]
  | case4 a b c rest ih =>
    have ha := a.toNat_lt
    have hb := b.toNat_lt
    have hc := c.toNat_lt
    have hfirst : UInt8.ofNat (a.toNat / 4 * 4 + (a.toNat % 4 * 16 + b.toNat / 16) / 16) = a := ofNat_eq (by omega)
    have hsecond :
        UInt8.ofNat ((a.toNat % 4 * 16 + b.toNat / 16) % 16 * 16 + (b.toNat % 16 * 4 + c.toNat / 64) / 4) = b :=
      ofNat_eq (by omega)
    have hthird : UInt8.ofNat ((b.toNat % 16 * 4 + c.toNat / 64) % 4 * 64 + c.toNat % 64) = c := ofNat_eq (by omega)
    rw [decodeGroups, value_char (by omega), value_char (by omega), value_char (by omega), value_char (by omega), ih]
    show some (_ :: _ :: _ :: rest) = some (a :: b :: c :: rest)
    rw [hfirst, hsecond, hthird]

theorem decode_encode (l : List UInt8) : decode (encode l) = some l := by
  have hkeep : (encode l).filter (fun c => c ≠ 10 ∧ c ≠ 13) = encode l := by
    refine List.filter_eq_self.2 fun c hc => ?_
    have h10 : c ≠ 10 := fun heq => not_mem_encode (by decide) l (heq ▸ hc)
    have h13 : c ≠ 13 := fun heq => not_mem_encode (by decide) l (heq ▸ hc)
    exact decide_eq_true ⟨h10, h13⟩
  unfold decode
  rw [hkeep, decodeGroups_encode]

end Base64

end Quorum
