import Mathlib
import Ctf3.Lib.Printf
import Ctf3.Lib.GoIo

/-!
# The binary raft transport

`writeData` frames a message as a marker, the request type, a big-endian length and the data;
`readPrefix` and `readData` read a frame back. The marker is written with `binary.Write` of the
constant `'\xfe'`, an untyped rune, so it goes out as a four-byte `int32`, while `readPrefix` reads
it into a `byte`: the reader meets `0x00` and rejects every frame (`readPrefix_writeData`). The
server loop then stops at the first connection and no request gets a reply (`sendRequest_none`).
-/

namespace Ctf3.Level4.Transport

open Printf GoIo

inductive FrameError
  | io (e : IoError)
  | prefixBit (got : UInt8)
  | requestType (got : UInt8)
  | handler
deriving DecidableEq, Repr

/-- The UTF-8 bytes `%c` prints for a byte. -/
def charBytes (b : UInt8) : List UInt8 :=
  if b < 0x80 then [b] else [(0xC0 : UInt8) ||| (b >>> (6 : UInt8)), (0x80 : UInt8) ||| (b &&& 0x3F)]

/-- `err.Error()`; a handler's error is the raft library's own. -/
def FrameError.message : FrameError → Option (List UInt8)
  | .io e => some e.message
  | .prefixBit b => some (bytes "Prefix bit was unexpectedly: " ++ charBytes b)
  | .requestType b => some (bytes "Received an invalid request type: " ++ charBytes b)
  | .handler => none

/-- `t.writeData(w, data, reqType)`: the preamble, then the data. -/
def writeData (data : List UInt8) (reqType : UInt8) : List UInt8 :=
  -- `'\xfe'` has no type of its own, so `binary.Write` gets it as a `rune`, an `int32`
  let preamble := Fixed.putBE (.int32 0xFE) ++ Fixed.putBE (.uint8 reqType) ++
    Fixed.putBE (.uint32 data.length.toUInt32)
  preamble ++ data

/-- `t.readPrefix(r)`: the request type, and the bytes left in `r`. -/
def readPrefix (r : List UInt8) : Except FrameError UInt8 × List UInt8 :=
  match readUInt8.exec r with
  | (.error e, rest) => (.error (.io e), rest)
  | (.ok marker, rest) =>
    if marker ≠ 0xFE then (.error (.prefixBit marker), rest)
    else
      match readUInt8.exec rest with
      | (.error e, rest) => (.error (.io e), rest)
      | (.ok reqType, rest) => (.ok reqType, rest)

/-- `t.readData(r, w)`: the bytes copied into `w`, the error, and the bytes left in `r`. -/
def readData (r : List UInt8) : List UInt8 × Option IoError × List UInt8 :=
  match readUInt32BE.exec r with
  | (.error e, rest) => ([], some e, rest)
  | (.ok respLen, rest) => copyN respLen.toNat rest

/-- One connection of `ListenAndServe`: the bytes written back, and the error that ends the loop.
`handle t reqData` is raft's side of the handler for the request type `t`: the encoded response,
or `none` when decoding the request or encoding the response fails. -/
def serveConn (handle : UInt8 → List UInt8 → Option (List UInt8)) (conn : List UInt8) :
    List UInt8 × Option FrameError :=
  match readPrefix conn with
  | (.error e, _) => ([], some e)
  | (.ok reqType, rest) =>
    -- the error of `readData` is not checked
    let reqData := (readData rest).1
    if reqType = 1 ∨ reqType = 2 ∨ reqType = 3 ∨ reqType = 4 then
      match handle reqType reqData with
      | some respData => (writeData respData reqType, none)
      | none => (writeData [] 0, some .handler)
    else ([], some (.requestType reqType))

/-- `t.sendRequest(reqType, peer, encode, decode)` against a peer that serves the connection with
`handle`: the response bytes handed to `decode`, or `none` where `sendRequest` returns false. A
peer that writes nothing back leaves the client's read with nothing to read. -/
def sendRequest (handle : UInt8 → List UInt8 → Option (List UInt8)) (reqType : UInt8)
    (reqData : List UInt8) : Option (List UInt8) :=
  match readPrefix (serveConn handle (writeData reqData reqType)).1 with
  | (.error _, _) => none
  | (.ok resType, rest) =>
    if resType ≠ reqType then none
    else
      match readData rest with
      | (respData, none, _) => some respData
      | (_, some _, _) => none

/-! ### Reading a frame -/

theorem readPrefix_cons (reqType : UInt8) (rest : List UInt8) :
    readPrefix (0xFE :: reqType :: rest) = (.ok reqType, rest) := by
  simp only [readPrefix, exec_readUInt8_cons, ne_eq, not_true_eq_false, if_false]

theorem readPrefix_of_ne (marker : UInt8) (rest : List UInt8) (hmarker : marker ≠ 0xFE) :
    readPrefix (marker :: rest) = (.error (.prefixBit marker), rest) := by
  simp only [readPrefix, exec_readUInt8_cons, hmarker, ne_eq, not_false_eq_true, if_true]

theorem readData_put (data rest : List UInt8) (hlen : data.length < 2 ^ 32) :
    readData (putUInt32BE data.length.toUInt32 ++ data ++ rest) = (data, none, rest) := by
  have hlen' : data.length.toUInt32.toNat = data.length := by
    rw [Nat.toUInt32_eq, UInt32.toNat_ofNat', Nat.mod_eq_of_lt hlen]
  rw [readData, List.append_assoc, exec_readUInt32BE_put]
  dsimp only
  rw [hlen', copyN_append data rest rfl]

/-! ### The frames `writeData` writes -/

theorem writeData_eq (data : List UInt8) (reqType : UInt8) :
    writeData data reqType =
      0x00 :: (0x00 :: 0x00 :: 0xFE :: reqType :: putUInt32BE data.length.toUInt32 ++ data) := by
  rfl

theorem readPrefix_writeData (data : List UInt8) (reqType : UInt8) (rest : List UInt8) :
    readPrefix (writeData data reqType ++ rest) =
      (.error (.prefixBit 0), (writeData data reqType).drop 1 ++ rest) := by
  rw [writeData_eq, List.cons_append, readPrefix_of_ne 0 _ (by decide)]
  rfl

example :
    readPrefix (writeData [] 1) = (.error (.prefixBit 0), [0x00, 0x00, 0xFE, 0x01, 0x00, 0x00, 0x00, 0x00]) ∧
      (FrameError.prefixBit 0).message = some (bytes "Prefix bit was unexpectedly: " ++ [0x00]) := by
  decide

theorem serveConn_writeData (handle : UInt8 → List UInt8 → Option (List UInt8)) (data : List UInt8)
    (reqType : UInt8) : serveConn handle (writeData data reqType) = ([], some (.prefixBit 0)) := by
  have hread := readPrefix_writeData data reqType []
  rw [List.append_nil] at hread
  rw [serveConn, hread]

/-- No request sent over the binary transport gets a response. -/
theorem sendRequest_none (handle : UInt8 → List UInt8 → Option (List UInt8)) (reqType : UInt8)
    (reqData : List UInt8) : sendRequest handle reqType reqData = none := by
  rw [sendRequest, serveConn_writeData]
  rfl

end Ctf3.Level4.Transport
