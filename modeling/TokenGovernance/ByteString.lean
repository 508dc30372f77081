/-
# Rows of bytes

Little-endian words and hexadecimal text. A word of `width` bytes holds a number of at most
`8 * width` bits, its lowest eight bits first (`ofLittleEndian_littleEndian`), and every row of
bytes is the word of the number it stands for (`littleEndian_ofLittleEndian`).
-/

namespace TokenGovernance

/-- A row of bytes. -/
abbrev ByteString := List UInt8

namespace ByteString

/-- The lowest `width` bytes of a number, the lowest first. -/
def littleEndian : (width : Nat) → Nat → ByteString
  | 0, _ => []
  | width + 1, n => UInt8.ofNat n :: littleEndian width (n / 256)

/-- The number that a row of bytes stands for, the lowest byte first. -/
def ofLittleEndian : ByteString → Nat
  | [] => 0
  | b :: rest => b.toNat + 256 * ofLittleEndian rest

/-- A word is as long as it is asked to be, whatever number it holds. -/
@[simp] theorem length_littleEndian (width n : Nat) : (littleEndian width n).length = width := by
  induction width generalizing n with
  | zero => rfl
  | succ width ih => simp [littleEndian, ih]

/-- One byte more holds 256 times as many numbers. -/
theorem shiftLeft_succ (width : Nat) : 1 <<< (8 * (width + 1)) = 256 * 1 <<< (8 * width) := by
  rw [Nat.mul_succ, Nat.shiftLeft_add, Nat.shiftLeft_eq _ 8, Nat.mul_comm]

/-- **A number that fits into a word is read back from it.** -/
theorem ofLittleEndian_littleEndian {width n : Nat} (h : n < 1 <<< (8 * width)) :
    ofLittleEndian (littleEndian width n) = n := by
  induction width generalizing n with
  | zero => simp [littleEndian, ofLittleEndian] at *; omega
  | succ width ih =>
    have hq : n / 256 < 1 <<< (8 * width) := by
      rw [shiftLeft_succ] at h
      omega
    simp only [littleEndian, ofLittleEndian, ih hq, UInt8.toNat_ofNat']
    omega

/-- A row of bytes stands for a number of no more bits than it has. -/
theorem ofLittleEndian_lt (bytes : ByteString) :
    ofLittleEndian bytes < 1 <<< (8 * bytes.length) := by
  induction bytes with
  | nil => simp [ofLittleEndian]
  | cons b rest ih =>
    have hb := b.toNat_lt
    simp only [ofLittleEndian, List.length_cons, shiftLeft_succ]
    omega

/-- **A row of bytes is the word of the number it stands for.** So reading and writing are inverse
on words of one width. -/
theorem littleEndian_ofLittleEndian (bytes : ByteString) :
    littleEndian bytes.length (ofLittleEndian bytes) = bytes := by
  induction bytes with
  | nil => rfl
  | cons b rest ih =>
    have hb := b.toNat_lt
    have h₁ : (b.toNat + 256 * ofLittleEndian rest) / 256 = ofLittleEndian rest := by omega
    have h₂ : UInt8.ofNat (b.toNat + 256 * ofLittleEndian rest) = b := by
      apply UInt8.toNat_inj.1
      rw [UInt8.toNat_ofNat']
      omega
    simp only [List.length_cons, littleEndian, ofLittleEndian, h₁, h₂, ih]

/-- Two lower-case hexadecimal digits a byte. -/
def hex (bytes : ByteString) : String :=
  String.ofList (bytes.flatMap fun b =>
    [Nat.digitChar (b.toNat / 16), Nat.digitChar (b.toNat % 16)])

end ByteString
end TokenGovernance
