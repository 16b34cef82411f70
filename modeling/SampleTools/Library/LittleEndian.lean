import Mathlib.Algebra.Ring.Nat
import Mathlib.Data.Nat.Basic
import Mathlib.Tactic.Common

/-!
# Little-endian byte strings

The value of a byte string with the least significant byte first, and the `n`
bytes of a number. The two are inverse up to reduction modulo `256 ^ n`.

## Main definitions

* `leBytes n v`: the `n` low bytes of `v`
* `leNat bs`: the number a byte string denotes
* `u16Bytes`, `u32Bytes`, `i64Bytes` and `u16Of`, `u32Of`, `i64Of`: the machine words

## Main results

* `leNat_leBytes`: reading what was written reduces modulo `256 ^ n`
* `leBytes_leNat`: writing what was read restores the bytes
* `u16Of_u16Bytes`, `u16Bytes_u16Of` and their kin: the machine words round-trip
-/

namespace LittleEndian

/-- The `n` low bytes of `v`, least significant first. -/
def leBytes : ℕ → ℕ → List UInt8
  | 0, _ => []
  | n + 1, v => UInt8.ofNat v :: leBytes n (v / 256)

/-- The number whose bytes are `bs`, least significant first. -/
def leNat : List UInt8 → ℕ
  | [] => 0
  | b :: bs => b.toNat + 256 * leNat bs

@[simp] theorem leNat_nil : leNat [] = 0 := rfl

@[simp] theorem leNat_cons (b : UInt8) (bs : List UInt8) :
    leNat (b :: bs) = b.toNat + 256 * leNat bs := rfl

@[simp] theorem leBytes_length (n v : ℕ) : (leBytes n v).length = n := by
  induction n generalizing v with
  | zero => rfl
  | succ n ih => simp [leBytes, ih]

theorem leNat_lt (bs : List UInt8) : leNat bs < 256 ^ bs.length := by
  induction bs with
  | nil => simp
  | cons b bs ih =>
    have hb : b.toNat < 256 := b.toNat_lt
    rw [leNat_cons, List.length_cons, Nat.pow_succ]
    omega

theorem leNat_leBytes (n v : ℕ) : leNat (leBytes n v) = v % 256 ^ n := by
  induction n generalizing v with
  | zero => simp [leBytes, Nat.mod_one]
  | succ n ih =>
    -- the first byte is the remainder by 256, the others are the bytes of the quotient
    have hb : (UInt8.ofNat v).toNat = v % 256 := UInt8.toNat_ofNat'
    rw [leBytes, leNat_cons, ih, hb, Nat.pow_succ, Nat.mul_comm (256 ^ n) 256, Nat.mod_mul]

theorem leNat_leBytes_of_lt {n v : ℕ} (h : v < 256 ^ n) : leNat (leBytes n v) = v := by
  rw [leNat_leBytes, Nat.mod_eq_of_lt h]

theorem leBytes_leNat (bs : List UInt8) : leBytes bs.length (leNat bs) = bs := by
  induction bs with
  | nil => rfl
  | cons b bs ih =>
    have hb : b.toNat < 256 := b.toNat_lt
    -- the first byte comes back as the remainder, the others by induction
    have hmod : UInt8.ofNat (b.toNat + 256 * leNat bs) = b := by
      apply UInt8.toNat_inj.mp
      rw [UInt8.toNat_ofNat']
      omega
    have hdiv : (b.toNat + 256 * leNat bs) / 256 = leNat bs := by omega
    rw [List.length_cons, leNat_cons, leBytes, hmod, hdiv, ih]

/-! ## Machine words -/

/-- The two bytes of a 16-bit word. -/
def u16Bytes (x : UInt16) : List UInt8 := leBytes 2 x.toNat

/-- The four bytes of a 32-bit word. -/
def u32Bytes (x : UInt32) : List UInt8 := leBytes 4 x.toNat

/-- The eight bytes of a signed 64-bit word, in two's complement. -/
def i64Bytes (x : Int64) : List UInt8 := leBytes 8 x.toUInt64.toNat

/-- The 16-bit word two bytes denote. -/
def u16Of (bs : List UInt8) : UInt16 := UInt16.ofNat (leNat bs)

/-- The 32-bit word four bytes denote. -/
def u32Of (bs : List UInt8) : UInt32 := UInt32.ofNat (leNat bs)

/-- The signed 64-bit word eight bytes denote. -/
def i64Of (bs : List UInt8) : Int64 := (UInt64.ofNat (leNat bs)).toInt64

@[simp] theorem u16Bytes_length (x : UInt16) : (u16Bytes x).length = 2 := leBytes_length _ _

@[simp] theorem u32Bytes_length (x : UInt32) : (u32Bytes x).length = 4 := leBytes_length _ _

@[simp] theorem i64Bytes_length (x : Int64) : (i64Bytes x).length = 8 := leBytes_length _ _

@[simp] theorem u16Of_u16Bytes (x : UInt16) : u16Of (u16Bytes x) = x := by
  rw [u16Of, u16Bytes, leNat_leBytes_of_lt x.toNat_lt, UInt16.ofNat_toNat]

@[simp] theorem u32Of_u32Bytes (x : UInt32) : u32Of (u32Bytes x) = x := by
  rw [u32Of, u32Bytes, leNat_leBytes_of_lt x.toNat_lt, UInt32.ofNat_toNat]

@[simp] theorem i64Of_i64Bytes (x : Int64) : i64Of (i64Bytes x) = x := by
  rw [i64Of, i64Bytes, leNat_leBytes_of_lt x.toUInt64.toNat_lt, UInt64.ofNat_toNat]
  rfl

theorem u16Bytes_u16Of {bs : List UInt8} (h : bs.length = 2) : u16Bytes (u16Of bs) = bs := by
  -- the value is below the size of the word, so nothing is cut off
  have hlt := leNat_lt bs
  rw [h] at hlt
  rw [u16Bytes, u16Of, UInt16.toNat_ofNat_of_lt' hlt, ← h, leBytes_leNat]

theorem u32Bytes_u32Of {bs : List UInt8} (h : bs.length = 4) : u32Bytes (u32Of bs) = bs := by
  have hlt := leNat_lt bs
  rw [h] at hlt
  rw [u32Bytes, u32Of, UInt32.toNat_ofNat_of_lt' hlt, ← h, leBytes_leNat]

end LittleEndian
