import Mathlib
import Ctf3.Lib.Printf
import Ctf3.Lib.Sha1

/-!
# Object ids in the vendored libgit2

A loose object's id is SHA-1 of a header, the type name, a space, the decimal length and a NUL,
followed by the object's bytes (`git_odb__hashobj`). `git_hash_vec` is a parameter: its backend is
not part of the repository.
-/

namespace Ctf3.Libgit2

open Printf Sha1

/-! ### Object types -/

/-- The type name and whether the size field is positive, for each entry of `git_objects_table`. -/
def objectsTable : List (String × Bool) :=
  [("", false), ("commit", true), ("tree", true), ("blob", true), ("tag", true), ("", false),
    ("OFS_DELTA", false), ("REF_DELTA", false)]

def gitObjCommit : Int := 1

def objectType2String (type : Int) : String :=
  if type < 0 ∨ objectsTable.length ≤ type.toNat then "" else (objectsTable.getD type.toNat ("", false)).1

def objectTypeIsLoose (type : Int) : Bool :=
  if type < 0 ∨ objectsTable.length ≤ type.toNat then false else (objectsTable.getD type.toNat ("", false)).2

/-! ### Hashing an object -/

/-- `git_odb__format_object_header(hdr, n, obj_len, obj_type)`: the header's length with its NUL,
and the buffer; `none` where the assertion on the length fails. -/
def formatObjectHeader {m : Nat} (hdr : Vector UInt8 m) (n objLen : Nat) (objType : Int) :
    Option (Nat × Vector UInt8 m) := do
  let (len, hdr) ← snprintf hdr n "%s %zu" [.str (bytes (objectType2String objType)), .size objLen]
  if 0 < len ∧ len ≤ n then some (len + 1, hdr) else none

/-- `git_odb__hashobj` on an object with its data present; `header` is the stack array as the call
finds it, and `none` is the source's `-1`. -/
def hashobj (hashVec : List (List UInt8) → HashValue) (header : Vector UInt8 64) (data : List UInt8)
    (type : Int) : Option HashValue := do
  if !objectTypeIsLoose type then none
  let (hdrlen, header) ← formatObjectHeader header 64 data.length type
  some (hashVec [header.toList.take hdrlen, data])

/-- `git_odb_hash(id, data, len, type)`. -/
def odbHash (hashVec : List (List UInt8) → HashValue) (header : Vector UInt8 64) (data : List UInt8)
    (type : Int) : Option HashValue :=
  hashobj hashVec header data type

/-! ### Object ids as text -/

def toHex : List UInt8 := bytes "0123456789abcdef"

def fmtOne (val : UInt8) : List UInt8 := [toHex.getD (val >>> 4).toNat 0, toHex.getD (val &&& 0xf).toNat 0]

/-- `git_oid_fmt`: the forty hex digits of an id. -/
def oidFmt (oid : Vector UInt8 20) : List UInt8 := oid.toList.flatMap fmtOne

/-- What `git_oid_tostr(out, GIT_OID_HEXSZ+1, oid)` leaves in its 41-byte buffer. -/
def oidTostr (oid : Vector UInt8 20) : List UInt8 := oidFmt oid ++ [0]

theorem toHex_ne_zero : ∀ b ∈ toHex, b ≠ 0 := by
  set_option maxRecDepth 8000 in decide

theorem length_toHex : toHex.length = 16 := by
  decide

theorem getD_toHex_ne_zero (d : UInt8) (hd : d.toNat < 16) : toHex.getD d.toNat 0 ≠ 0 := by
  rw [List.getD_eq_getElem _ _ (by rw [length_toHex]; exact hd)]
  exact toHex_ne_zero _ (List.getElem_mem _)

theorem fmtOne_ne_zero (val : UInt8) : ∀ b ∈ fmtOne val, b ≠ 0 := by
  have hval := val.toNat_lt
  have hhigh : (val >>> 4).toNat < 16 := by
    simp only [UInt8.toNat_shiftRight, UInt8.reduceToNat, Nat.reduceMod, Nat.shiftRight_eq_div_pow]
    omega
  have hlow : (val &&& 0xf).toNat < 16 := by
    rw [UInt8.toNat_and]
    exact Nat.lt_of_le_of_lt Nat.and_le_right (by decide)
  simp only [fmtOne, List.mem_cons, List.not_mem_nil, or_false]
  rintro b (rfl | rfl)
  · exact getD_toHex_ne_zero _ hhigh
  · exact getD_toHex_ne_zero _ hlow

theorem length_oidFmt (oid : Vector UInt8 20) : (oidFmt oid).length = 40 := by
  simp [oidFmt, fmtOne, List.length_flatMap]

theorem takeWhile_oidTostr (oid : Vector UInt8 20) : (oidTostr oid).takeWhile (· != 0) = oidFmt oid := by
  have hdigits : ∀ b ∈ oidFmt oid, (b != 0) = true := by
    intro b hb
    obtain ⟨val, -, hval⟩ := List.mem_flatMap.mp hb
    simpa using fmtOne_ne_zero val b hval
  rw [oidTostr, List.takeWhile_append_of_pos hdigits]
  simp

theorem formatObjectHeader_commit {m : Nat} (hdr : Vector UInt8 m) (n len : Nat)
    (hfits : (bytes "commit " ++ decimal len).length < n) :
    formatObjectHeader hdr n len gitObjCommit =
      some ((bytes "commit " ++ decimal len).length + 1, overwrite hdr (bytes "commit " ++ decimal len ++ [0])) := by
  have hrender : render "%s %zu".toList [.str (bytes (objectType2String gitObjCommit)), .size len] =
      some (bytes "commit " ++ decimal len) := by
    have hname : bytes (objectType2String gitObjCommit) = bytes "commit" := by decide
    have hfmt : "%s %zu".toList = '%' :: 's' :: ([' '] ++ '%' :: 'z' :: 'u' :: []) := by decide
    rw [hname, hfmt, render_s, render_append_of_not_mem _ _ _ (by decide), render_zu, render,
      takeWhile_ne_zero _ (by set_option maxRecDepth 8000 in decide)]
    simp [bytes]
  have hpos : 0 < (bytes "commit " ++ decimal len).length := by
    have hname : (bytes "commit ").length = 7 := by decide
    rw [List.length_append, hname]
    omega
  rw [formatObjectHeader, snprintf_of_render hdr n _ _ _ hrender hfits]
  simp only [Option.bind_eq_bind, Option.bind_some]
  rw [if_pos ⟨hpos, hfits.le⟩]

theorem odbHash_commit (hashVec : List (List UInt8) → HashValue)
    (hhashVec : ∀ vec, hashVec vec = Sha1.hash vec.flatten) (header : Vector UInt8 64) (data : List UInt8)
    (hfits : (bytes "commit " ++ decimal data.length).length < 64) :
    odbHash hashVec header data gitObjCommit =
      some (Sha1.hash (bytes "commit " ++ decimal data.length ++ [0] ++ data)) := by
  have hloose : objectTypeIsLoose gitObjCommit = true := by decide
  have hlen : (bytes "commit " ++ decimal data.length ++ [0]).length =
      (bytes "commit " ++ decimal data.length).length + 1 := by
    simp only [List.length_append, List.length_singleton]
  have htake : (overwrite header (bytes "commit " ++ decimal data.length ++ [0])).toList.take
      (bytes "commit " ++ decimal data.length ++ [0]).length = bytes "commit " ++ decimal data.length ++ [0] := by
    rw [take_overwrite header _ le_rfl (by omega), List.take_length]
  simp only [odbHash, hashobj, hloose, Bool.not_true, formatObjectHeader_commit header 64 data.length hfits]
  simp only [Option.bind_eq_bind, Option.bind_some, Bool.false_eq_true, if_false]
  rw [← hlen, htake, hhashVec, List.flatten_cons, List.flatten_cons, List.flatten_nil, List.append_nil]

end Ctf3.Libgit2
