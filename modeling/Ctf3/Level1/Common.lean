import Mathlib
import Ctf3.Lib.ByteOrder
import Ctf3.Lib.Sha1

/-!
# The miner's buffer

`common.h` fixes the layout every backend shares: a 256-byte buffer whose first 247 bytes are the
git object (an 11-byte header and a 236-byte commit) and whose last nine bytes are the SHA-1
padding that `pad_message` writes. The length field of that padding holds only the low two bytes
of the bit length; for 247 bytes they are all there is, and `padMessage_commit` says the padding
is then exactly the padding of §5.1.1, so a padded buffer is its own SHA-1 input.
-/

namespace Ctf3.Level1

open ByteOrder

def bufferLength : Nat := 256

def paddingLength : Nat := 9

def preambleLength : Nat := 11

def blockLength : Nat := 64

def commitLength : Nat := bufferLength - paddingLength

def msgLength : Nat := commitLength - preambleLength

/-- `pad_message(msg, length, buffer_length)`: `-1` when the buffer cannot hold nine more bytes,
else `0` with `0x80`, six zero bytes and the low two bytes of the bit length written after the
message. -/
def padMessage {n : Nat} (msg : Vector UInt8 n) (length bufferLength : UInt32) : Int × Vector UInt8 n :=
  let bitLength : UInt32 := length * 8
  if bufferLength < length + 9 then (-1, msg)
  else
    let l := length.toNat
    let msg := msg.setIfInBounds l 0x80
    -- memset(&msg[length+1], 0, 6)
    let msg := (List.range 6).foldl (fun m k => m.setIfInBounds (l + 1 + k) 0) msg
    let msg := msg.setIfInBounds (l + 7) ((bitLength >>> 8) &&& 0xff).toUInt8
    (0, msg.setIfInBounds (l + 8) (bitLength.toUInt8 &&& 0xff))

theorem getElem_memset {n : Nat} (msg : Vector UInt8 n) (start count j : Nat) (hj : j < n) :
    ((List.range count).foldl (fun m k => m.setIfInBounds (start + k) 0) msg)[j] =
      if start ≤ j ∧ j < start + count then 0 else msg[j] := by
  induction count with
  | zero =>
    simp only [List.range_zero, List.foldl_nil]
    split_ifs with h
    · omega
    · rfl
  | succ count ih =>
    rw [List.range_succ, List.foldl_append, List.foldl_cons, List.foldl_nil, Vector.getElem_setIfInBounds hj, ih]
    by_cases hlast : start + count = j
    · simp only [hlast, if_true]
      rw [if_pos (by omega)]
    · simp only [hlast, if_false]
      by_cases hin : start ≤ j ∧ j < start + count
      · rw [if_pos hin, if_pos (by omega)]
      · rw [if_neg hin, if_neg (by omega)]

theorem getElem_padMessage {n : Nat} (msg : Vector UInt8 n) (length bufferLength : UInt32)
    (hfits : ¬bufferLength < length + 9) (j : Nat) (hj : j < n) :
    (padMessage msg length bufferLength).2[j] =
      if length.toNat + 8 = j then (length * 8).toUInt8 &&& 0xff
      else if length.toNat + 7 = j then (((length * 8) >>> 8) &&& 0xff).toUInt8
      else if length.toNat + 1 ≤ j ∧ j < length.toNat + 1 + 6 then 0
      else if length.toNat = j then 0x80 else msg[j] := by
  simp only [padMessage, hfits, if_false, Vector.getElem_setIfInBounds hj, getElem_memset _ _ _ _ hj]

theorem padMessage_padMessage {n : Nat} (msg : Vector UInt8 n) (length bufferLength : UInt32)
    (hfits : ¬bufferLength < length + 9) :
    (padMessage (padMessage msg length bufferLength).2 length bufferLength).2 =
      (padMessage msg length bufferLength).2 := by
  ext j hj
  rw [getElem_padMessage _ _ _ hfits, getElem_padMessage _ _ _ hfits]
  split_ifs <;> rfl

theorem take_padMessage {n : Nat} (msg : Vector UInt8 n) (length bufferLength : UInt32)
    (hfits : ¬bufferLength < length + 9) :
    (padMessage msg length bufferLength).2.toList.take length.toNat = msg.toList.take length.toNat := by
  apply List.ext_getElem
  · simp
  · intro j hj _
    simp only [List.length_take, Vector.length_toList] at hj
    have h8 : length.toNat + 8 ≠ j := by omega
    have h7 : length.toNat + 7 ≠ j := by omega
    have hzeros : ¬(length.toNat + 1 ≤ j ∧ j < length.toNat + 1 + 6) := by omega
    have h0 : length.toNat ≠ j := by omega
    rw [List.getElem_take, List.getElem_take, Vector.getElem_toList, Vector.getElem_toList,
      getElem_padMessage _ _ _ hfits]
    simp only [h8, h7, hzeros, h0, if_false]

theorem drop_padMessage_commit (msg : Vector UInt8 bufferLength) :
    (padMessage msg (UInt32.ofNat commitLength) (UInt32.ofNat bufferLength)).2.toList.drop commitLength =
      Sha1.padding commitLength := by
  have hpadding : Sha1.padding commitLength = [0x80, 0, 0, 0, 0, 0, 0, 0x07, 0xB8] := by decide
  have hfits : ¬UInt32.ofNat bufferLength < UInt32.ofNat commitLength + 9 := by decide
  have hlength : (UInt32.ofNat commitLength).toNat = 247 := by decide
  have hlow : ((UInt32.ofNat commitLength) * (8 : UInt32)).toUInt8 &&& 0xff = 0xB8 := by decide
  have hhigh : ((((UInt32.ofNat commitLength) * (8 : UInt32)) >>> 8) &&& 0xff).toUInt8 = 0x07 := by decide
  rw [hpadding]
  apply List.ext_getElem
  · simp [commitLength, bufferLength, paddingLength]
  · intro k hk _
    have hk9 : k < 9 := by
      simp only [List.length_drop, Vector.length_toList, commitLength, bufferLength, paddingLength] at hk
      omega
    rw [List.getElem_drop, Vector.getElem_toList, getElem_padMessage _ _ _ hfits, hlength, hlow, hhigh]
    have hcommit : commitLength = 247 := rfl
    simp only [hcommit]
    interval_cases k <;> simp

theorem padMessage_commit (msg : Vector UInt8 bufferLength)
    (hpad : (padMessage msg (UInt32.ofNat commitLength) (UInt32.ofNat bufferLength)).2 = msg) :
    msg.toList.drop commitLength = Sha1.padding commitLength := by
  rw [← hpad]
  exact drop_padMessage_commit msg

end Ctf3.Level1
