import N42.ByteStrings

/-!
Printable texts of bytes and numbers: hexadecimal, decimal and base 64.  A text
is plain when a JSON writer copies it between quotes as it stands.
-/

namespace N42.TextEncoding


def ascii (text : String) : List UInt8 :=
  text.toList.map fun c => UInt8.ofNat c.toNat

def isPlain (c : UInt8) : Bool :=
  32 ≤ c && c ≤ 126 && c != 34 && c != 92 && c != 38 && c != 60 && c != 62

def PlainText := { text : List UInt8 // text.all isPlain }

instance : DecidableEq PlainText :=
  inferInstanceAs (DecidableEq { text : List UInt8 // text.all isPlain })

def plain (text : String) : PlainText :=
  ⟨(ascii text).filter isPlain, List.all_eq_true.mpr fun _ hc => List.of_mem_filter hc⟩

section

variable (value : Nat)

def hexDigit : UInt8 :=
  if value < 10 then UInt8.ofNat (48 + value) else UInt8.ofNat (87 + value)

def hexValue (c : UInt8) : Option Nat :=
  if 48 ≤ c ∧ c ≤ 57 then some (c.toNat - 48)
  else if 65 ≤ c ∧ c ≤ 70 then some (c.toNat - 65 + 10)
  else if 97 ≤ c ∧ c ≤ 102 then some (c.toNat - 97 + 10)
  else none

theorem hexValue_hexDigit {value : Nat} (h : value < 16) :
    hexValue (hexDigit value) = some value := by
  revert value
  decide

theorem hexDigit_isPlain {value : Nat} (h : value < 16) : isPlain (hexDigit value) := by
  revert value
  decide

def encodeHex : List UInt8 → List UInt8
  | [] => []
  | b :: bs => hexDigit (b.toNat / 16) :: hexDigit (b.toNat % 16) :: encodeHex bs

def decodeHex : List UInt8 → Option (List UInt8)
  | [] => some []
  | [_] => none
  | high :: low :: rest => do
      let h ← hexValue high
      let l ← hexValue low
      let bytes ← decodeHex rest
      return UInt8.ofNat (16 * h + l) :: bytes

@[simp] theorem encodeHex_length (bytes : List UInt8) :
    (encodeHex bytes).length = 2 * bytes.length := by
  induction bytes with
  | nil => rfl
  | cons b bs ih =>
    simp only [encodeHex, List.length_cons, ih]
    omega

theorem decodeHex_encodeHex (bytes : List UInt8) : decodeHex (encodeHex bytes) = some bytes := by
  induction bytes with
  | nil => rfl
  | cons b bs ih =>
    have hb := b.toNat_lt
    have hbyte : UInt8.ofNat (16 * (b.toNat / 16) + b.toNat % 16) = b := by
      rw [Nat.div_add_mod, UInt8.ofNat_toNat]
    rw [encodeHex, decodeHex, hexValue_hexDigit (by omega), hexValue_hexDigit (by omega), ih]
    exact congrArg (fun byte => some (byte :: bs)) hbyte

theorem encodeHex_isPlain (bytes : List UInt8) : (encodeHex bytes).all isPlain := by
  induction bytes with
  | nil => rfl
  | cons b bs ih =>
    have hb := b.toNat_lt
    simp [encodeHex, ih, hexDigit_isPlain (show b.toNat / 16 < 16 by omega),
      hexDigit_isPlain (show b.toNat % 16 < 16 by omega)]

def digitChar (digit : Nat) : UInt8 :=
  UInt8.ofNat (48 + digit)

def isDigit (c : UInt8) : Bool :=
  48 ≤ c && c ≤ 57

def digitValue (c : UInt8) : Nat :=
  c.toNat - 48

theorem digitChar_spec {digit : Nat} (h : digit < 10) :
    isDigit (digitChar digit) ∧ isPlain (digitChar digit) ∧
      digitValue (digitChar digit) = digit := by
  revert digit
  decide

def decimal : List UInt8 :=
  if value = 0 then [48] else ((Nat.digits 10 value).map digitChar).reverse

def ofDecimal (text : List UInt8) : Nat :=
  Nat.ofDigits 10 (text.reverse.map digitValue)

theorem decimal_mem {value : Nat} {c : UInt8} (h : c ∈ decimal value) :
    ∃ digit < 10, c = digitChar digit := by
  unfold decimal at h
  split at h
  · exact ⟨0, by omega, List.mem_singleton.mp h⟩
  · obtain ⟨digit, hdigit, rfl⟩ := List.mem_map.mp (List.mem_reverse.mp h)
    exact ⟨digit, Nat.digits_lt_base (by omega) hdigit, rfl⟩

theorem ofDecimal_decimal : ofDecimal (decimal value) = value := by
  unfold ofDecimal decimal
  split
  · rename_i h
    rw [h]
    rfl
  · have hvalues : ((Nat.digits 10 value).map digitChar).map digitValue = Nat.digits 10 value := by
      rw [List.map_map]
      calc
        _ = (Nat.digits 10 value).map id := List.map_congr_left fun digit hdigit =>
          (digitChar_spec (Nat.digits_lt_base (by omega) hdigit)).2.2
        _ = Nat.digits 10 value := List.map_id _
    rw [List.reverse_reverse, hvalues, Nat.ofDigits_digits]

theorem decimal_all_isDigit : (decimal value).all isDigit := by
  rw [List.all_eq_true]
  intro c hc
  obtain ⟨digit, hlt, rfl⟩ := decimal_mem hc
  exact (digitChar_spec hlt).1

theorem decimal_isPlain : (decimal value).all isPlain := by
  rw [List.all_eq_true]
  intro c hc
  obtain ⟨digit, hlt, rfl⟩ := decimal_mem hc
  exact (digitChar_spec hlt).2.1

theorem decimal_ne_nil : decimal value ≠ [] := by
  unfold decimal
  split
  · simp
  · rename_i h
    simpa [Nat.digits_eq_nil_iff_eq_zero] using h

def base64Char : UInt8 :=
  if value < 26 then UInt8.ofNat (65 + value)
  else if value < 52 then UInt8.ofNat (97 + (value - 26))
  else if value < 62 then UInt8.ofNat (48 + (value - 52))
  else if value = 62 then 43
  else 47

def encodeBase64 : List UInt8 → List UInt8
  | a :: b :: c :: rest =>
    let bits := a.toNat * 65536 + b.toNat * 256 + c.toNat
    base64Char (bits / 262144 % 64) :: base64Char (bits / 4096 % 64) ::
      base64Char (bits / 64 % 64) :: base64Char (bits % 64) :: encodeBase64 rest
  | [a, b] =>
    let bits := a.toNat * 65536 + b.toNat * 256
    [base64Char (bits / 262144 % 64), base64Char (bits / 4096 % 64),
      base64Char (bits / 64 % 64), 61]
  | [a] =>
    let bits := a.toNat * 65536
    [base64Char (bits / 262144 % 64), base64Char (bits / 4096 % 64), 61, 61]
  | [] => []

theorem base64Char_isPlain : isPlain (base64Char (value % 64)) := by
  have h : value % 64 < 64 := Nat.mod_lt _ (by omega)
  generalize value % 64 = digit at h
  revert digit
  decide

end

theorem encodeBase64_isPlain (bytes : List UInt8) : (encodeBase64 bytes).all isPlain := by
  have hpad : isPlain 61 = true := by decide
  fun_induction encodeBase64 bytes with
  | case1 a b c rest bits ih => simp [base64Char_isPlain, ih]
  | case2 a b bits => simp [base64Char_isPlain, hpad]
  | case3 a bits => simp [base64Char_isPlain, hpad]
  | case4 => rfl

end N42.TextEncoding
