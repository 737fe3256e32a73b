import Mathlib

/-!
# Length-prefixed records

A file is a sequence of records, each the length of its data as a number of eight bytes,
the lowest byte first, followed by the data.  Reading stops where fewer than eight bytes
are left, and fails where the data are shorter than their length says.

Main results: `ofLeBytes_leBytes`, `readFrames_flatMap_frame`.
-/

namespace Numaflow.Lib

open List

/-- The lowest bytes of a number, the lowest one first. -/
def leBytes : Nat → Nat → List UInt8
  | 0, _ => []
  | width + 1, n => UInt8.ofNat n :: leBytes width (n / 256)

/-- The number that bytes stand for. -/
def ofLeBytes : List UInt8 → Nat
  | [] => 0
  | b :: bs => b.toNat + 256 * ofLeBytes bs

@[simp]
theorem length_leBytes (width n : Nat) : (leBytes width n).length = width := by
  induction width generalizing n with
  | zero => rfl
  | succ _ ih => rw [leBytes, length_cons, ih]

variable {n width : Nat} {payloads : List (List UInt8)}

/-- A number survives its bytes. -/
theorem ofLeBytes_leBytes (h : n < 256 ^ width) : ofLeBytes (leBytes width n) = n := by
  induction width generalizing n with
  | zero =>
    rw [Nat.pow_zero, Nat.lt_one_iff] at h
    subst h
    rfl
  | succ width ih =>
    have hhigh : n / 256 < 256 ^ width := by
      apply Nat.div_lt_of_lt_mul
      rwa [Nat.mul_comm, ← Nat.pow_succ]
    rw [leBytes, ofLeBytes, ih hhigh, UInt8.toNat_ofNat']
    omega

/-- A record with its length. -/
def frame (data : List UInt8) : List UInt8 :=
  leBytes 8 data.length ++ data

/-- The records of a file; when the data of a record are cut, the records before it and the
length that was expected. -/
def readFrames (bytes : List UInt8) : List (List UInt8) × Option Nat :=
  if _hshort : bytes.length < 8 then ([], none)
  else
    let len := ofLeBytes (bytes.take 8)
    let rest := bytes.drop 8
    if rest.length < len then ([], some len)
    else
      let tail := readFrames (rest.drop len)
      (rest.take len :: tail.1, tail.2)
termination_by bytes.length
decreasing_by
  simp only [List.length_drop]
  omega

theorem readFrames_nil : readFrames [] = ([], none) := by
  rw [readFrames, dif_pos (by decide)]

theorem readFrames_frame_append {data : List UInt8} (h : data.length < 256 ^ 8) (rest : List UInt8) :
    readFrames (frame data ++ rest) = (data :: (readFrames rest).1, (readFrames rest).2) := by
  have hhead := length_leBytes 8 data.length
  have htake : (frame data ++ rest).take 8 = leBytes 8 data.length := by
    rw [frame, append_assoc, take_left' hhead]
  have hdrop : (frame data ++ rest).drop 8 = data ++ rest := by
    rw [frame, append_assoc, drop_left' hhead]
  have hlength : ¬ (frame data ++ rest).length < 8 := by
    simp only [frame, length_append, hhead]
    omega
  rw [readFrames, dif_neg hlength]
  simp only [htake, hdrop, ofLeBytes_leBytes h, take_left, drop_left]
  simp

/-- Records that are written are read back. -/
theorem readFrames_flatMap_frame (h : ∀ data ∈ payloads, data.length < 256 ^ 8) :
    readFrames (payloads.flatMap frame) = (payloads, none) := by
  induction payloads with
  | nil => exact readFrames_nil
  | cons _ _ ih =>
    obtain ⟨hdata, hrest⟩ := forall_mem_cons.mp h
    rw [flatMap_cons, readFrames_frame_append hdata, ih hrest]

end Numaflow.Lib
