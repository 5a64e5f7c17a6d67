import Mathlib
import Ctf3.Lib.ByteOrder
import Ctf3.Lib.GoIo

/-!
# The action wire format

An `Action` travels from a follower to the leader, and into raft's log, as a big-endian row id,
the increment, a one-byte length and the word. `Encode` writes `uint8(len(word))`, so a word of
256 bytes or more is written with the wrong length and the decoder stops early:
`decode_encode_long_word` is the failing case; `decode_encode` and `decode_of_truncated` are the round
trip for the words that fit.
-/

namespace Ctf3.Level4

open GoIo

structure Action where
  rowId : UInt32
  inc : UInt8
  favoriteWord : List UInt8
deriving DecidableEq, Repr

/-- The bytes `action.Encode(w)` writes. -/
def Action.encode (action : Action) : List UInt8 :=
  let strLen : UInt8 := action.favoriteWord.length.toUInt8
  putUInt32BE action.rowId ++ [action.inc] ++ [strLen] ++ action.favoriteWord

/-- The reads of `Decode`, in order. -/
def decodeFields : Reader Action := do
  let rowId ← readUInt32BE
  let inc ← readUInt8
  let strLen ← readUInt8
  let wordData ← readFull strLen.toNat
  return ⟨rowId, inc, wordData⟩

/-- `action.Decode(r)`: the receiver after the call, the bytes left in `r`, and the error. The
fields are assigned only after every read has succeeded. -/
def Action.decode (action : Action) (r : List UInt8) : Action × List UInt8 × Option IoError :=
  match decodeFields.exec r with
  | (.ok fields, rest) => (fields, rest, none)
  | (.error e, rest) => (action, rest, some e)

theorem decode_of_exec_ok (action fields : Action) {r rest : List UInt8}
    (h : decodeFields.exec r = (.ok fields, rest)) : action.decode r = (fields, rest, none) := by
  simp only [Action.decode, h]

theorem decode_of_exec_error (action : Action) {r rest : List UInt8} {e : IoError}
    (h : decodeFields.exec r = (.error e, rest)) : action.decode r = (action, rest, some e) := by
  simp only [Action.decode, h]

theorem toNat_strLen {a : Action} (hword : a.favoriteWord.length < 256) :
    a.favoriteWord.length.toUInt8.toNat = a.favoriteWord.length := by
  rw [Nat.toUInt8_eq, UInt8.toNat_ofNat', Nat.mod_eq_of_lt hword]

theorem exec_decodeFields_encode (a : Action) (rest : List UInt8) (hword : a.favoriteWord.length < 256) :
    decodeFields.exec (a.encode ++ rest) = (.ok a, rest) := by
  have hbytes : a.encode ++ rest =
      putUInt32BE a.rowId ++ (a.inc :: a.favoriteWord.length.toUInt8 :: (a.favoriteWord ++ rest)) := by
    simp [Action.encode]
  rw [hbytes, decodeFields, exec_bind_ok _ _ (exec_readUInt32BE_put _ _), exec_bind_ok _ _ (exec_readUInt8_cons _ _),
    exec_bind_ok _ _ (exec_readUInt8_cons _ _), exec_bind_ok _ _ (exec_readFull_append _ rest (toNat_strLen hword).symm)]
  rfl

theorem decode_encode (recv a : Action) (rest : List UInt8) (hword : a.favoriteWord.length < 256) :
    recv.decode (a.encode ++ rest) = (a, rest, none) :=
  decode_of_exec_ok recv a (exec_decodeFields_encode a rest hword)

theorem length_encode (a : Action) : a.encode.length = 6 + a.favoriteWord.length := by
  simp [Action.encode, putUInt32BE]
  omega

theorem exec_decodeFields_truncated (a : Action) (m : Nat) (hword : a.favoriteWord.length < 256)
    (hm : m < a.encode.length) : ∃ e, decodeFields.exec (a.encode.take m) = (.error e, []) := by
  have hlen := length_encode a
  rcases Nat.lt_or_ge m 4 with h4 | h4
  · -- cut inside the row id
    obtain ⟨e, he⟩ := exec_readUInt32BE_short (a.encode.take m) (by simp only [List.length_take]; omega)
    exact ⟨e, exec_bind_error _ _ he⟩
  obtain ⟨k, rfl⟩ : ∃ k, m = 4 + k := ⟨m - 4, by omega⟩
  have hbytes : a.encode = putUInt32BE a.rowId ++ (a.inc :: a.favoriteWord.length.toUInt8 :: a.favoriteWord) := by
    simp [Action.encode]
  have htake : a.encode.take (4 + k) =
      putUInt32BE a.rowId ++ (a.inc :: a.favoriteWord.length.toUInt8 :: a.favoriteWord).take k := by
    have hput : (putUInt32BE a.rowId).length = 4 := rfl
    rw [hbytes, List.take_append, List.take_of_length_le (by omega), hput, Nat.add_sub_cancel_left]
  rw [htake, decodeFields, exec_bind_ok _ _ (exec_readUInt32BE_put _ _)]
  rcases k with _ | _ | k
  · -- cut before the increment
    exact ⟨_, exec_bind_error _ _ exec_readUInt8_nil⟩
  · -- cut before the length
    rw [List.take_succ_cons, List.take_zero, exec_bind_ok _ _ (exec_readUInt8_cons _ _)]
    exact ⟨_, exec_bind_error _ _ exec_readUInt8_nil⟩
  · -- cut inside the word
    rw [List.take_succ_cons, List.take_succ_cons, exec_bind_ok _ _ (exec_readUInt8_cons _ _),
      exec_bind_ok _ _ (exec_readUInt8_cons _ _)]
    obtain ⟨e, he⟩ := exec_readFull_short (a.favoriteWord.take k) (n := a.favoriteWord.length.toUInt8.toNat)
      (by rw [toNat_strLen hword, List.length_take]; omega)
    exact ⟨e, exec_bind_error _ _ he⟩

/-- `Decode` on a proper prefix of an encoded action fails and leaves the receiver as it was. -/
theorem decode_of_truncated (recv a : Action) (m : Nat) (hword : a.favoriteWord.length < 256)
    (hm : m < a.encode.length) : ∃ e, recv.decode (a.encode.take m) = (recv, [], some e) := by
  obtain ⟨e, he⟩ := exec_decodeFields_truncated a m hword hm
  exact ⟨e, decode_of_exec_error recv he⟩

theorem decode_of_truncated_cut :
    ([0x61, 0x62] : List UInt8).length < 256 ∧ 5 < (Action.mk 7 1 [0x61, 0x62]).encode.length ∧
      ∃ e, (Action.mk 0 0 []).decode ((Action.mk 7 1 [0x61, 0x62]).encode.take 5) = (Action.mk 0 0 [], [], some e) :=
  ⟨by decide, by decide, decode_of_truncated _ _ 5 (by decide) (by decide)⟩

/-- A word of 256 bytes, which `\w+` accepts, is encoded with length byte 0: decoding reads an
empty word and leaves the word's bytes unread. -/
theorem decode_encode_long_word (recv : Action) (rest : List UInt8) :
    recv.decode ((Action.mk 0 1 (List.replicate 256 0x61)).encode ++ rest) =
      (Action.mk 0 1 [], List.replicate 256 0x61 ++ rest, none) := by
  have hzero : (List.replicate 256 (0x61 : UInt8)).length.toUInt8 = 0 := by
    rw [List.length_replicate]
    rfl
  have hbytes : (Action.mk 0 1 (List.replicate 256 0x61)).encode ++ rest =
      putUInt32BE 0 ++ (1 :: 0 :: (List.replicate 256 0x61 ++ rest)) := by
    simp only [Action.encode, hzero, List.append_assoc, List.singleton_append]
    rfl
  have hword : (readFull (UInt8.toNat 0)).exec (List.replicate 256 0x61 ++ rest) =
      (.ok [], List.replicate 256 0x61 ++ rest) :=
    exec_readFull_append [] _ rfl
  apply decode_of_exec_ok
  rw [hbytes, decodeFields, exec_bind_ok _ _ (exec_readUInt32BE_put _ _), exec_bind_ok _ _ (exec_readUInt8_cons _ _),
    exec_bind_ok _ _ (exec_readUInt8_cons _ _), exec_bind_ok _ _ hword]
  rfl

end Ctf3.Level4
