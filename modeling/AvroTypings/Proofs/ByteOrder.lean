/-!
# The order of names by bytes

Names are sorted as texts, character by character. A file system compares them byte by byte. This
file shows that the two orders agree.

A character is encoded by a lead byte and by continuation bytes, which hold its number in base 64
from the most significant digit on. A greater number never has a smaller lead byte. If the lead
bytes are equal then so are the numbers of continuation bytes, and the digits decide.

## Main definitions

* `Text.bytes`: the bytes of a text.
* `Text.leadByte`, `Text.continuation`: the encoding of a character's number.

## Main results

* `Text.bytes_lt_bytes`: a smaller text has smaller bytes.
-/

namespace AvroTypings.Text

/-- The bytes of a text. -/
def bytes (text : String) : List UInt8 := text.toUTF8.data.toList

/-! ### Characters -/

/-- How many continuation bytes the number of a character takes. -/
def continuationLength (v : Nat) : Nat :=
  if v ≤ 0x7f then 0 else if v ≤ 0x7ff then 1 else if v ≤ 0xffff then 2 else 3

/-- What marks a lead byte before so many continuation bytes. -/
def leadMark : Nat → Nat
  | 0 => 0
  | 1 => 0xc0
  | 2 => 0xe0
  | _ => 0xf0

/-- What a digit in base 64 counts with so many digits behind it. -/
def placeValue : Nat → Nat
  | 0 => 1
  | k + 1 => placeValue k * 64

/-- The lead byte of the number of a character. -/
def leadByte (v : Nat) : Nat :=
  v / placeValue (continuationLength v) + leadMark (continuationLength v)

/-- The last digits of a number in base 64, as continuation bytes. -/
def continuation : Nat → Nat → List UInt8
  | 0, _ => []
  | k + 1, v => UInt8.ofNat (v / placeValue k % 64 + 0x80) :: continuation k v

theorem ofNat_lt_ofNat {m n : Nat} (hn : n < 256) (h : m < n) :
    UInt8.ofNat m < UInt8.ofNat n := by
  rw [UInt8.lt_iff_toNat_lt, UInt8.toNat_ofNat_of_lt' (Nat.lt_trans h hn),
    UInt8.toNat_ofNat_of_lt' hn]
  exact h

/-- Of two numbers that agree up to their last digits, the smaller one has the smaller digits. -/
theorem continuation_append_lt {k v w : Nat} (hlt : v < w)
    (hsame : v / placeValue k = w / placeValue k) (xs ys : List UInt8) :
    continuation k v ++ xs < continuation k w ++ ys := by
  induction k with
  | zero =>
    simp only [placeValue, Nat.div_one] at hsame
    omega
  | succ k ih =>
    rw [placeValue, ← Nat.div_div_eq_div_mul, ← Nat.div_div_eq_div_mul] at hsame
    have hle : v / placeValue k ≤ w / placeValue k := Nat.div_le_div_right (Nat.le_of_lt hlt)
    rcases Nat.lt_or_eq_of_le hle with hdigit | hdigit
    · exact .rel (ofNat_lt_ofNat (by omega) (by omega))
    · simp only [continuation, List.cons_append, hdigit]
      exact .cons (ih hdigit)

theorem toNat_val_lt (c : Char) : c.val.toNat < 0x110000 := by
  have hvalid := c.valid
  unfold UInt32.isValidChar Nat.isValidChar at hvalid
  omega

theorem utf8EncodeChar_eq (c : Char) :
    String.utf8EncodeChar c =
      UInt8.ofNat (leadByte c.val.toNat) ::
        continuation (continuationLength c.val.toNat) c.val.toNat := by
  have hlimit := toNat_val_lt c
  unfold String.utf8EncodeChar leadByte continuationLength
  generalize c.val.toNat = v at *
  dsimp only
  split
  · simp [continuation, leadMark, placeValue]
  · split
    · rw [Nat.mod_eq_of_lt (by omega : v / 64 < 0x20)]
      simp [continuation, leadMark, placeValue]
    · split
      · rw [Nat.mod_eq_of_lt (by omega : v / 4096 < 0x10)]
        simp [continuation, leadMark, placeValue]
      · rw [Nat.mod_eq_of_lt (by omega : v / 262144 < 0x08)]
        simp [continuation, leadMark, placeValue]

/-- The numbers of characters by their continuation bytes. -/
theorem continuationLength_cases (v : Nat) :
    continuationLength v = 0 ∧ v < 0x80 ∨ continuationLength v = 1 ∧ 0x80 ≤ v ∧ v < 0x800 ∨
      continuationLength v = 2 ∧ 0x800 ≤ v ∧ v < 0x10000 ∨
        continuationLength v = 3 ∧ 0x10000 ≤ v := by
  unfold continuationLength
  split
  · omega
  · split
    · omega
    · split <;> omega

/-- A greater number has a greater lead byte, or it has the same one and as many continuation bytes,
and differs in these only. -/
theorem leadByte_lt_or_eq {v w : Nat} (hlt : v < w) :
    leadByte v < leadByte w ∨ leadByte v = leadByte w ∧
      continuationLength v = continuationLength w ∧
        v / placeValue (continuationLength w) = w / placeValue (continuationLength w) := by
  unfold leadByte
  rcases continuationLength_cases v with ⟨hv, _⟩ | ⟨hv, _⟩ | ⟨hv, _⟩ | ⟨hv, _⟩ <;>
    rcases continuationLength_cases w with ⟨hw, _⟩ | ⟨hw, _⟩ | ⟨hw, _⟩ | ⟨hw, _⟩ <;>
      simp only [hv, hw, leadMark, placeValue, true_and] <;> omega

theorem leadByte_lt {v : Nat} (h : v < 0x110000) : leadByte v < 256 := by
  unfold leadByte
  rcases continuationLength_cases v with ⟨hv, _⟩ | ⟨hv, _⟩ | ⟨hv, _⟩ | ⟨hv, _⟩ <;>
    simp only [hv, leadMark, placeValue] <;> omega

/-- A smaller character is encoded by smaller bytes, whatever follows. -/
theorem utf8EncodeChar_append_lt {c d : Char} (h : c < d) (xs ys : List UInt8) :
    String.utf8EncodeChar c ++ xs < String.utf8EncodeChar d ++ ys := by
  have hlt : c.val.toNat < d.val.toNat := h
  have hlead : leadByte d.val.toNat < 256 := leadByte_lt (toNat_val_lt d)
  rw [utf8EncodeChar_eq, utf8EncodeChar_eq]
  rcases leadByte_lt_or_eq hlt with hless | ⟨hsame, hlength, hdigits⟩
  · exact .rel (ofNat_lt_ofNat hlead hless)
  · rw [hsame, hlength]
    exact .cons (continuation_append_lt hlt hdigits xs ys)

/-! ### Texts -/

theorem bytes_eq_flatMap (text : String) :
    bytes text = text.toList.flatMap String.utf8EncodeChar := by
  rw [bytes, String.toUTF8_eq_toByteArray]
  conv => lhs; rw [← String.ofList_toList (s := text), String.toByteArray_ofList]
  rw [List.utf8Encode]
  simp

theorem flatMap_utf8EncodeChar_lt {a b : List Char} (h : a < b) :
    a.flatMap String.utf8EncodeChar < b.flatMap String.utf8EncodeChar := by
  induction h with
  | nil =>
    rw [List.flatMap_cons, utf8EncodeChar_eq]
    exact .nil
  | rel hlt => exact utf8EncodeChar_append_lt hlt _ _
  | cons _ ih => exact List.append_left_lt ih

/-- A smaller text has smaller bytes. -/
theorem bytes_lt_bytes {a b : String} (h : a < b) : bytes a < bytes b := by
  rw [bytes_eq_flatMap, bytes_eq_flatMap]
  exact flatMap_utf8EncodeChar_lt h

end AvroTypings.Text
