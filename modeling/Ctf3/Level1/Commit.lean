import Mathlib
import Ctf3.Lib.Printf
import Ctf3.Lib.Sha1
import Ctf3.Libgit2.Odb
import Ctf3.Level1.Common

/-!
# The commit the miner hashes

`prepare_index` prints the commit object, header included, into the 256-byte buffer and pads it;
`commit_result` hands bytes 11 to 246 to `git_odb_write` as a commit. The layout holds up only if
the format prints exactly `COMMIT_LENGTH` bytes: two forty-digit ids and two ten-digit timestamps
make it so, and `prepareIndex_commitResult` shows that git's object id is then SHA-1 of the
bytes the miner hashed.
-/

namespace Ctf3.Level1

open Printf Sha1 Libgit2

def prepareIndexFormat : String :=
  "commit %d%c" ++
  "tree %s\n" ++
  "parent %s\n" ++
  "author null           <nulles@bytess.com> %d +0000\n" ++
  "committer null           <nulles@bytess.com> %d +0000\n" ++
  "\n" ++
  "coins now" ++
  "\x01\x01\x01\x01" ++
  "\x01\x01\x01\x01" ++
  "\x01\x01\x01"

/-- The arguments of the `snprintf` call: `tree_str` and `parent_str` as `git_oid_tostr` fills
them, and the two `(int)time(NULL)` values. -/
def prepareIndexArgs (tree parent : Vector UInt8 20) (now1 now2 : Int) : List Arg :=
  [.int msgLength, .int 0, .str (oidTostr tree), .str (oidTostr parent), .int now1, .int now2]

/-- The buffer `prepare_index` leaves in `msg`. -/
def prepareIndex (msg : Vector UInt8 bufferLength) (tree parent : Vector UInt8 20) (now1 now2 : Int) :
    Option (Vector UInt8 bufferLength) := do
  let (_, msg) ← snprintf msg bufferLength prepareIndexFormat (prepareIndexArgs tree parent now1 now2)
  some (padMessage msg (UInt32.ofNat commitLength) (UInt32.ofNat bufferLength)).2

/-- The id `git_odb_write(commit, odb, &msg[PREAMBLE_LENGTH], MSG_LENGTH, GIT_OBJ_COMMIT)` gives. -/
def commitResult (hashVec : List (List UInt8) → HashValue) (header : Vector UInt8 64)
    (msg : Vector UInt8 bufferLength) : Option HashValue :=
  odbHash hashVec header ((msg.toList.drop preambleLength).take msgLength) gitObjCommit

theorem render_prepareIndex (tree parent : Vector UInt8 20) (now1 now2 : Int) :
    render prepareIndexFormat.toList (prepareIndexArgs tree parent now1 now2) =
      some ((bytes "commit 236" ++ [0]) ++
        (bytes "tree " ++ oidFmt tree ++ bytes "\nparent " ++ oidFmt parent ++
          bytes "\nauthor null           <nulles@bytess.com> " ++ decimal now1 ++
          bytes " +0000\ncommitter null           <nulles@bytess.com> " ++ decimal now2 ++
          bytes " +0000\n\ncoins now") ++
        List.replicate 11 1) := by
  have hsplit : prepareIndexFormat.toList =
      "commit ".toList ++ '%' :: 'd' :: '%' :: 'c' :: ("tree ".toList ++ '%' :: 's' ::
        ("\nparent ".toList ++ '%' :: 's' ::
        ("\nauthor null           <nulles@bytess.com> ".toList ++ '%' :: 'd' ::
        (" +0000\ncommitter null           <nulles@bytess.com> ".toList ++ '%' :: 'd' ::
        ((" +0000\n\ncoins now" ++ "\x01\x01\x01\x01\x01\x01\x01\x01\x01\x01\x01").toList ++ []))))) := by
    set_option maxRecDepth 8000 in decide
  rw [hsplit, prepareIndexArgs, render_append_of_not_mem _ _ _ (by decide), render_d, render_c,
    render_append_of_not_mem _ _ _ (by decide), render_s,
    render_append_of_not_mem _ _ _ (by decide), render_s,
    render_append_of_not_mem _ _ _ (by decide), render_d,
    render_append_of_not_mem _ _ _ (by decide), render_d,
    render_append_of_not_mem _ _ _ (by decide), render,
    takeWhile_oidTostr, takeWhile_oidTostr]
  simp only [Option.map_eq_map, Option.map_some, List.append_nil]
  have hheader : bytes "commit " ++ decimal msgLength ++ [UInt8.ofNat ((0 : Int) % 256).toNat] =
      bytes "commit 236" ++ [0] := by
    decide
  have htail : List.map Char.toUInt8 (" +0000\n\ncoins now" ++ "\x01\x01\x01\x01\x01\x01\x01\x01\x01\x01\x01").toList =
      bytes " +0000\n\ncoins now" ++ List.replicate 11 1 := by
    decide
  rw [← hheader, htail]
  simp only [bytes, List.append_assoc, List.cons_append, List.nil_append]

theorem length_decimal_timestamp (t : Int) (ht : 10 ^ 9 ≤ t ∧ t < 2 ^ 31) : (decimal t).length = 10 := by
  have hcast : t = ((t.toNat : Nat) : Int) := by omega
  rw [hcast]
  exact length_decimal t.toNat 10 (by omega) (by omega)

theorem length_render_prepareIndex (tree parent : Vector UInt8 20) (now1 now2 : Int)
    (hnow1 : 10 ^ 9 ≤ now1 ∧ now1 < 2 ^ 31) (hnow2 : 10 ^ 9 ≤ now2 ∧ now2 < 2 ^ 31) :
    (bytes "tree " ++ oidFmt tree ++ bytes "\nparent " ++ oidFmt parent ++
      bytes "\nauthor null           <nulles@bytess.com> " ++ decimal now1 ++
      bytes " +0000\ncommitter null           <nulles@bytess.com> " ++ decimal now2 ++
      bytes " +0000\n\ncoins now").length = 225 := by
  have hlits : (bytes "tree ").length = 5 ∧ (bytes "\nparent ").length = 8 ∧
      (bytes "\nauthor null           <nulles@bytess.com> ").length = 43 ∧
      (bytes " +0000\ncommitter null           <nulles@bytess.com> ").length = 52 ∧
      (bytes " +0000\n\ncoins now").length = 17 := by
    decide
  simp only [List.length_append, length_oidFmt, length_decimal_timestamp now1 hnow1,
    length_decimal_timestamp now2 hnow2]
  omega

theorem prepareIndex_commitResult (msg : Vector UInt8 bufferLength) (header : Vector UInt8 64)
    (tree parent : Vector UInt8 20) (now1 now2 : Int) (hashVec : List (List UInt8) → HashValue)
    (hhashVec : ∀ vec, hashVec vec = Sha1.hash vec.flatten)
    (hnow1 : 10 ^ 9 ≤ now1 ∧ now1 < 2 ^ 31) (hnow2 : 10 ^ 9 ≤ now2 ∧ now2 < 2 ^ 31) :
    (snprintf msg bufferLength prepareIndexFormat (prepareIndexArgs tree parent now1 now2)).map Prod.fst =
        some commitLength ∧
      ∃ out, prepareIndex msg tree parent now1 now2 = some out ∧
        (∃ hdr, formatObjectHeader header 64 msgLength gitObjCommit = some (preambleLength, hdr) ∧
          out.toList.take preambleLength = hdr.toList.take preambleLength) ∧
        (out.toList.drop 236).take 11 = List.replicate 11 1 ∧
        commitResult hashVec header out = some (Sha1.hash (out.toList.take commitLength)) := by
  obtain ⟨middle, htext, hmiddle⟩ : ∃ middle,
      render prepareIndexFormat.toList (prepareIndexArgs tree parent now1 now2) =
        some ((bytes "commit 236" ++ [0]) ++ middle ++ List.replicate 11 1) ∧ middle.length = 225 :=
    ⟨_, render_prepareIndex tree parent now1 now2, length_render_prepareIndex tree parent now1 now2 hnow1 hnow2⟩
  obtain ⟨body, hbody⟩ : ∃ body, body = (bytes "commit 236" ++ [0]) ++ middle ++ List.replicate 11 1 := ⟨_, rfl⟩
  rw [← hbody] at htext
  have hheader : (bytes "commit 236" ++ [0]).length = 11 := by decide
  have hbody_len : body.length = 247 := by
    simp only [hbody, List.length_append, hheader, hmiddle, List.length_replicate]
  have hbody_take : body.take 11 = bytes "commit 236" ++ [0] := by
    rw [hbody, List.append_assoc, List.take_left' hheader]
  have hbody_drop : body.drop 236 = List.replicate 11 1 := by
    rw [hbody, List.drop_left' (by simp only [List.length_append, hheader, hmiddle])]
  have hsn : snprintf msg bufferLength prepareIndexFormat (prepareIndexArgs tree parent now1 now2) =
      some (247, overwrite msg (body ++ [0])) := by
    rw [snprintf_of_render msg _ _ _ _ htext (by rw [hbody_len]; decide), hbody_len]
  have hfits : ¬UInt32.ofNat bufferLength < UInt32.ofNat commitLength + 9 := by decide
  obtain ⟨out, hout⟩ : ∃ out, out = (padMessage (overwrite msg (body ++ [0])) (UInt32.ofNat commitLength)
      (UInt32.ofNat bufferLength)).2 := ⟨_, rfl⟩
  have htake : out.toList.take 247 = body := by
    have hkeep := take_padMessage (overwrite msg (body ++ [0])) _ _ hfits
    have hcommit : (UInt32.ofNat commitLength).toNat = 247 := by decide
    rw [hcommit, ← hout] at hkeep
    rw [hkeep, take_overwrite msg _ (by simp [hbody_len]) (by simp [hbody_len, bufferLength]),
      List.take_left' hbody_len]
  have hout_header : out.toList.take preambleLength = bytes "commit 236" ++ [0] := by
    have hmin : min preambleLength 247 = preambleLength := rfl
    rw [← hmin, ← List.take_take, htake]
    exact hbody_take
  have hgit : bytes "commit " ++ decimal msgLength ++ [0] = bytes "commit 236" ++ [0] := by decide
  have hgit_length : (bytes "commit " ++ decimal msgLength).length + 1 = preambleLength := by decide
  refine ⟨by rw [hsn]; rfl, out, by simp only [prepareIndex, hsn, hout]; rfl, ?_, ?_, ?_⟩
  · refine ⟨_, by rw [formatObjectHeader_commit header 64 msgLength (by decide), hgit_length], ?_⟩
    rw [hout_header, take_overwrite header _ (by rw [hgit, hheader]; rfl) (by rw [hgit, hheader]; decide), hgit,
      List.take_of_length_le (by rw [hheader]; rfl)]
  · rw [List.take_drop, show 236 + 11 = 247 from rfl, htake, hbody_drop]
  · have hdata : ((out.toList.drop preambleLength).take msgLength).length = msgLength := by
      rw [List.length_take, List.length_drop, Vector.length_toList]
      rfl
    rw [commitResult, odbHash_commit hashVec hhashVec header _ (by rw [hdata]; decide), hdata, hgit,
      ← hout_header, ← List.take_add]
    rfl

theorem prepareIndex_commitResult_first_second :
    (snprintf (Vector.replicate bufferLength 0) bufferLength prepareIndexFormat
        (prepareIndexArgs (Vector.replicate 20 0) (Vector.replicate 20 0) (10 ^ 9) (10 ^ 9))).map Prod.fst =
        some commitLength ∧
      ∃ out, prepareIndex (Vector.replicate bufferLength 0) (Vector.replicate 20 0) (Vector.replicate 20 0)
          (10 ^ 9) (10 ^ 9) = some out ∧
        (∃ hdr, formatObjectHeader (Vector.replicate 64 0) 64 msgLength gitObjCommit = some (preambleLength, hdr) ∧
          out.toList.take preambleLength = hdr.toList.take preambleLength) ∧
        (out.toList.drop 236).take 11 = List.replicate 11 1 ∧
        commitResult (fun vec => Sha1.hash vec.flatten) (Vector.replicate 64 0) out =
          some (Sha1.hash (out.toList.take commitLength)) :=
  prepareIndex_commitResult _ _ _ _ _ _ (fun vec => Sha1.hash vec.flatten) (fun _ => rfl) (by norm_num) (by norm_num)

end Ctf3.Level1
