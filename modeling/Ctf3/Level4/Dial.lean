import Mathlib
import Ctf3.Lib.Printf
import Ctf3.Lib.GoStrings

/-!
# Connection strings

The cluster reaches its peers over HTTP, on unix sockets as well as on TCP. `Encode` turns an
address into a URL whose host has no `/`, writing each `/` of a unix path as `-`; `Decode` undoes
it, after cutting off the port the HTTP client may have added; `UnixDialer` dials the decoded
address on the network its first byte names. `decode_encode_address` says that decoding an
encoded address, with or without a port, gives the address back.
-/

namespace Ctf3.Level4.Transport

open Printf GoStrings

inductive Network
  | unix
  | tcp
deriving DecidableEq, Repr

/-- `Network(addr)`; `none` where `addr[0]` panics on the empty string. -/
def network : List UInt8 → Option Network
  | [] => none
  | c :: _ => some (if c = 0x2F ∨ c = 0x2E then .unix else .tcp)

/-- A byte of the class `[/a-zA-Z0-9\.]`. -/
def unixByte (b : UInt8) : Bool :=
  b = 0x2F || (0x61 ≤ b && b ≤ 0x7A) || (0x41 ≤ b && b ≤ 0x5A) || (0x30 ≤ b && b ≤ 0x39) || b = 0x2E

/-- `unix.MatchString(addr)`: `^[/a-zA-Z0-9\.]*$` matches the strings made of the class only. -/
def unixMatch (addr : List UInt8) : Bool := addr.all unixByte

/-- `Encode(addr)`: the connection string, or the text of the error; `none` where it panics. -/
def encode (addr : List UInt8) : Option (Except (List UInt8) (List UInt8)) :=
  (network addr).map fun
    | .unix =>
      if !unixMatch addr then
        .error (bytes "Invalid address path " ++ addr ++ bytes " (must contain only dots, slashes, and alphanumeric characters, due to the way we\x27re hacking HTTP-over-Unix-sockets into Go)")
      else .ok (bytes "http://" ++ replaceByte addr 0x2F 0x2D)
    | .tcp =>
      if addr.head? = some 0x2D then
        .error (bytes "Invalid address " ++ addr ++ bytes " (cannot begin with a -, due to the way we\x27re hacking HTTP-over-Unix-sockets into Go)")
      else .ok (bytes "http://" ++ addr)

/-- `Decode(addr)`; `none` where `addr[0]` panics. -/
def decode (addr : List UInt8) : Option (List UInt8) :=
  match trimPrefix addr (bytes "http://") with
  | [] => none
  | c :: rest =>
    if c = 0x2D ∨ c = 0x2E then some (replaceByte (splitFirst (c :: rest) 0x3A) 0x2D 0x2F)
    else some (c :: rest)

/-- The network and the address `UnixDialer(_, encoded)` passes to `net.Dial`. -/
def unixDialer (encoded : List UInt8) : Option (Network × List UInt8) := do
  let decoded ← decode encoded
  let net ← network decoded
  pure (net, decoded)

/-! ### What `Encode` accepts -/

theorem encode_unix {addr encoded : List UInt8} (hencode : encode addr = some (.ok encoded))
    (hunix : network addr = some .unix) :
    unixMatch addr = true ∧ encoded = bytes "http://" ++ replaceByte addr 0x2F 0x2D := by
  rw [encode, hunix, Option.map_some, Option.some.injEq] at hencode
  dsimp only at hencode
  split at hencode
  · cases hencode
  · rename_i hmatch
    cases hencode
    exact ⟨by simpa using hmatch, rfl⟩

theorem encode_tcp {addr encoded : List UInt8} (hencode : encode addr = some (.ok encoded))
    (htcp : network addr = some .tcp) :
    addr.head? ≠ some 0x2D ∧ encoded = bytes "http://" ++ addr := by
  rw [encode, htcp, Option.map_some, Option.some.injEq] at hencode
  dsimp only at hencode
  split at hencode
  · cases hencode
  · rename_i hdash
    cases hencode
    exact ⟨hdash, rfl⟩

/-! ### Decoding -/

theorem unixByte_of_mem {addr : List UInt8} (hmatch : unixMatch addr = true) {b : UInt8} (hb : b ∈ addr) :
    unixByte b = true := List.all_eq_true.mp hmatch b hb

theorem decode_of_trimPrefix_unix (s addr tail : List UInt8) (c : UInt8) (rest : List UInt8)
    (haddr : addr = c :: rest) (hc : c = 0x2F ∨ c = 0x2E) (hmatch : unixMatch addr = true)
    (htail : tail = [] ∨ ∃ port, tail = 0x3A :: port)
    (htrim : trimPrefix s (bytes "http://") = replaceByte addr 0x2F 0x2D ++ tail) :
    decode s = some addr := by
  have hcolon : (0x3A : UInt8) ∉ replaceByte addr 0x2F 0x2D :=
    not_mem_replaceByte (fun h => absurd (unixByte_of_mem hmatch h) (by decide)) (by decide)
  have hdash : (0x2D : UInt8) ∉ addr := fun h => absurd (unixByte_of_mem hmatch h) (by decide)
  have hsplit : splitFirst (replaceByte addr 0x2F 0x2D ++ tail) 0x3A = replaceByte addr 0x2F 0x2D := by
    rcases htail with rfl | ⟨port, rfl⟩
    · rw [List.append_nil, splitFirst_of_not_mem _ _ hcolon]
    · exact splitFirst_append_cons _ _ _ hcolon
  have hfirst : replaceByte addr 0x2F 0x2D ++ tail =
      (if c = 0x2F then 0x2D else c) :: (replaceByte rest 0x2F 0x2D ++ tail) := by
    rw [haddr, replaceByte_cons, List.cons_append]
  have hbranch : (if c = 0x2F then (0x2D : UInt8) else c) = 0x2D ∨ (if c = 0x2F then (0x2D : UInt8) else c) = 0x2E := by
    rcases hc with rfl | rfl <;> decide
  rw [decode, htrim, hfirst]
  dsimp only
  rw [if_pos hbranch, ← hfirst, hsplit, replaceByte_replaceByte _ _ _ hdash]

theorem decode_of_trimPrefix_tcp (s addr : List UInt8) (c : UInt8) (rest : List UInt8)
    (haddr : addr = c :: rest) (hc : ¬(c = 0x2F ∨ c = 0x2E)) (hdash : c ≠ 0x2D)
    (htrim : trimPrefix s (bytes "http://") = addr) : decode s = some addr := by
  have hbranch : ¬(c = 0x2D ∨ c = 0x2E) := by
    rintro (h | h)
    · exact hdash h
    · exact hc (Or.inr h)
  rw [decode, htrim, haddr]
  dsimp only
  rw [if_neg hbranch]

theorem decode_encode_unix {addr encoded : List UInt8} {c : UInt8} {rest : List UInt8} (haddr : addr = c :: rest)
    (hc : c = 0x2F ∨ c = 0x2E) (hencode : encode addr = some (.ok encoded)) (hnet : network addr = some .unix) :
    decode encoded = some addr ∧
      ∀ port, decode (trimPrefix encoded (bytes "http://") ++ 0x3A :: port) = some addr := by
  obtain ⟨hmatch, rfl⟩ := encode_unix hencode hnet
  have htrim := trimPrefix_append (bytes "http://") (replaceByte addr 0x2F 0x2D)
  refine ⟨decode_of_trimPrefix_unix _ addr [] c rest haddr hc hmatch (.inl rfl)
    (by rw [htrim, List.append_nil]), fun port => ?_⟩
  rw [htrim]
  refine decode_of_trimPrefix_unix _ addr _ c rest haddr hc hmatch (.inr ⟨port, rfl⟩) ?_
  rw [haddr, replaceByte_cons, List.cons_append]
  refine trimPrefix_cons_of_ne _ _ _ 0x68 rfl ?_
  rcases hc with rfl | rfl <;> decide

theorem decode_encode_tcp {addr encoded : List UInt8} {c : UInt8} {rest : List UInt8} (haddr : addr = c :: rest)
    (hc : ¬(c = 0x2F ∨ c = 0x2E)) (hencode : encode addr = some (.ok encoded)) (hnet : network addr = some .tcp) :
    decode encoded = some addr := by
  obtain ⟨hhead, rfl⟩ := encode_tcp hencode hnet
  have hdash : c ≠ 0x2D := fun h => hhead (by rw [haddr, h]; rfl)
  exact decode_of_trimPrefix_tcp _ addr c rest haddr hc hdash (trimPrefix_append _ _)

theorem decode_encode_address (addr encoded : List UInt8) (hencode : encode addr = some (.ok encoded)) :
    decode encoded = some addr ∧ (decode encoded).bind network = network addr ∧
      (network addr = some .unix →
        ∀ port, decode (trimPrefix encoded (bytes "http://") ++ 0x3A :: port) = some addr) ∧
      unixDialer encoded = (network addr).map fun net => (net, addr) := by
  obtain ⟨c, rest, haddr⟩ : ∃ c rest, addr = c :: rest := by
    cases addr with
    | nil => cases hencode
    | cons c rest => exact ⟨c, rest, rfl⟩
  have hnet : network addr = some (if c = 0x2F ∨ c = 0x2E then .unix else .tcp) := by
    rw [haddr]
    rfl
  have hdecode : decode encoded = some addr ∧
      (network addr = some .unix →
        ∀ port, decode (trimPrefix encoded (bytes "http://") ++ 0x3A :: port) = some addr) := by
    by_cases hc : c = 0x2F ∨ c = 0x2E
    · rw [if_pos hc] at hnet
      exact (decode_encode_unix haddr hc hencode hnet).imp_right fun hport _ => hport
    · rw [if_neg hc] at hnet
      refine ⟨decode_encode_tcp haddr hc hencode hnet, fun hunix => ?_⟩
      rw [hnet] at hunix
      cases hunix
  refine ⟨hdecode.1, by rw [hdecode.1]; rfl, hdecode.2, ?_⟩
  simp [unixDialer, hdecode.1, hnet]

theorem decode_encode_address_socket :
    encode (bytes "/tmp/n1") = some (.ok (bytes "http://-tmp-n1")) ∧
      (decode (bytes "http://-tmp-n1") = some (bytes "/tmp/n1") ∧
        (decode (bytes "http://-tmp-n1")).bind network = network (bytes "/tmp/n1") ∧
        (network (bytes "/tmp/n1") = some .unix →
          ∀ port, decode (trimPrefix (bytes "http://-tmp-n1") (bytes "http://") ++ 0x3A :: port) =
            some (bytes "/tmp/n1")) ∧
        unixDialer (bytes "http://-tmp-n1") = (network (bytes "/tmp/n1")).map fun net => (net, bytes "/tmp/n1")) :=
  ⟨by decide, decode_encode_address _ _ (by decide)⟩

end Ctf3.Level4.Transport
