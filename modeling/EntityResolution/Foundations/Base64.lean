/-
# Base64 without padding

Three bytes are four digits of six bits; what is left at the end, one byte or two, is two digits or
three, whose last bits are zero. A text that is written so is read back. What is read is a text of
the alphabet that no byte stops short in, with zeros where no byte has bits.
-/

import Mathlib

namespace EntityResolution.Base64

/-- The digits of a list of bytes. -/
def digits : List ℕ → List ℕ
  | a :: b :: c :: rest =>
      a / 4 :: (a % 4 * 16 + b / 16) :: (b % 16 * 4 + c / 64) :: c % 64 :: digits rest
  | [a, b] => [a / 4, a % 4 * 16 + b / 16, b % 16 * 4]
  | [a] => [a / 4, a % 4 * 16]
  | [] => []

/-- The bytes of a list of digits. -/
def bytes : List ℕ → Option (List ℕ)
  | w :: x :: y :: z :: rest =>
      (bytes rest).map fun tail =>
        (w * 4 + x / 16) :: (x % 16 * 16 + y / 4) :: (y % 4 * 64 + z) :: tail
  | [w, x, y] => if y % 4 = 0 then some [w * 4 + x / 16, x % 16 * 16 + y / 4] else none
  | [w, x] => if x % 16 = 0 then some [w * 4 + x / 16] else none
  | [_] => none
  | [] => some []

theorem bytes_digits {data : List ℕ} (hdata : ∀ byte ∈ data, byte < 256) :
    bytes (digits data) = some data := by
  induction data using digits.induct with
  | case1 a b c rest ih =>
      have ha := hdata a (by simp)
      have hb := hdata b (by simp)
      have hc := hdata c (by simp)
      rw [digits, bytes, ih fun byte hbyte => hdata byte (by simp [hbyte]), Option.map_some]
      congr 2
      · omega
      · congr 1
        · omega
        · congr 1
          omega
  | case2 a b =>
      have ha := hdata a (by simp)
      have hb := hdata b (by simp)
      rw [digits, bytes, if_pos (by omega)]
      congr 2
      · omega
      · congr 1
        omega
  | case3 a =>
      have ha := hdata a (by simp)
      rw [digits, bytes, if_pos (by omega)]
      congr 2
      omega
  | case4 => rfl

theorem digits_lt {data : List ℕ} (hdata : ∀ byte ∈ data, byte < 256) :
    ∀ digit ∈ digits data, digit < 64 := by
  induction data using digits.induct with
  | case1 a b c rest ih =>
      have ha := hdata a (by simp)
      have hb := hdata b (by simp)
      have hc := hdata c (by simp)
      have hrest := ih fun byte hbyte => hdata byte (by simp [hbyte])
      simp only [digits, List.forall_mem_cons]
      exact ⟨by omega, by omega, by omega, by omega, hrest⟩
  | case2 a b =>
      have ha := hdata a (by simp)
      have hb := hdata b (by simp)
      simp only [digits, List.forall_mem_cons]
      exact ⟨by omega, by omega, by omega, by simp⟩
  | case3 a =>
      have ha := hdata a (by simp)
      simp only [digits, List.forall_mem_cons]
      exact ⟨by omega, by omega, by simp⟩
  | case4 => simp [digits]

/-- The alphabet that is safe in URLs. -/
def alphabet : List Char :=
  "ABCDEFGHIJKLMNOPQRSTUVWXYZabcdefghijklmnopqrstuvwxyz0123456789-_".toList

def letter (digit : ℕ) : Char := alphabet.getD digit 'A'

def value (c : Char) : Option ℕ := alphabet.idxOf? c

theorem value_letter {digit : ℕ} (hdigit : digit < 64) : value (letter digit) = some digit := by
  have hall : ∀ digit : Fin 64, value (letter digit) = some digit.val := by
    decide +kernel
  exact hall ⟨digit, hdigit⟩

theorem mapM_value_letter {data : List ℕ} (hdata : ∀ digit ∈ data, digit < 64) :
    (data.map letter).mapM value = some data := by
  induction data with
  | nil => rfl
  | cons digit data ih =>
      rw [List.map_cons, List.mapM_cons, value_letter (hdata digit List.mem_cons_self),
        ih fun other hother => hdata other (List.mem_cons_of_mem _ hother)]
      rfl

/-- The bytes of a text. -/
def utf8 (text : String) : List ℕ :=
  text.toByteArray.data.toList.map UInt8.toNat

/-- The text of bytes, if they are one. -/
def fromUtf8 (data : List ℕ) : Option String :=
  String.fromUTF8? ⟨(data.map UInt8.ofNat).toArray⟩

theorem fromUtf8_utf8 (text : String) : fromUtf8 (utf8 text) = some text := by
  have hbytes : (utf8 text).map UInt8.ofNat = text.toByteArray.data.toList := by
    rw [utf8, List.map_map]
    apply List.map_id''
    intro byte
    exact UInt8.ofNat_toNat
  rw [fromUtf8, hbytes, Array.toArray_toList, String.fromUTF8?, dif_pos text.isValidUTF8]
  rfl

def encode (text : String) : String :=
  String.ofList ((digits (utf8 text)).map letter)

def decode (text : String) : Option String := do
  let data ← text.toList.mapM value
  fromUtf8 (← bytes data)

theorem decode_encode (text : String) : decode (encode text) = some text := by
  have hbytes : ∀ byte ∈ utf8 text, byte < 256 := by
    intro byte hbyte
    rw [utf8, List.mem_map] at hbyte
    obtain ⟨byte, -, rfl⟩ := hbyte
    exact byte.toNat_lt
  rw [decode, encode, String.toList_ofList, mapM_value_letter (digits_lt hbytes)]
  simp only [Option.bind_eq_bind, Option.bind_some, bytes_digits hbytes, fromUtf8_utf8]

end EntityResolution.Base64
