import Mathlib
import Ctf3.Lib.Printf
import Ctf3.Level0.Hash
import Ctf3.Level0.SpellCheck
import Ctf3.Level0.Bloom

/-!
# The spell checker's buffers

`main` reads up to `READ_BUFFER` bytes at a time into `buffer`, keeps the run it is inside in
`word[MAX_LENGTH]`, and builds the output of each read in `output[OUT_BUFFER]` before writing it.
A run of at most 63 bytes fits `word` with its NUL (`wordIndex_lt`), and every byte `write_word`
tests is inside the `SLOTS`-byte table (`bloomOffset_lt`). `output` is too small: a read of short
runs the filter does not hold writes each with two more bytes, and 682 runs of two letters already
fill 3410 bytes (`main_output_overflows`). On the reads that keep `main` inside its buffers
(`InBuffers`), an input that ends with a separator is checked as the specification says
(`main_of_separator_end`).
-/

namespace Ctf3.Level0

open Printf

def outBuffer : Nat := 3078

/-- The index `main` writes in `word` on the byte `curr`: `word[word_pos] = curr`, or the NUL that
`write_word` puts after a run. -/
def wordIndex (st : Scan) (curr : UInt8) : Option Nat :=
  if isSeparator curr then (if st.word.length ≠ 0 then some st.word.length else none)
  else some st.word.length

/-- The bytes of each `write(1, output, out_pos)`, one for each read, which `main` builds in
`output`. -/
def readOutputs (bloomData : Nat → UInt8) : Scan → List (List UInt8) → List (List UInt8)
  | _, [] => []
  | st, buffer :: chunks =>
    let after := buffer.foldl (scanByte bloomData) ⟨st.word, st.allAlpha, []⟩
    after.output :: readOutputs bloomData after chunks

/-- The reads on which `main` stays inside `word` and `output`: no run is longer than 63 bytes, so it
fits with its NUL, and no read's output is longer than `OUT_BUFFER`. -/
structure InBuffers (bloomData : Nat → UInt8) (chunks : List (List UInt8)) : Prop where
  runs : ∀ s, s <:+: chunks.flatten → (∀ c ∈ s, isSeparator c = false) → s.length ≤ 63
  outputs : ∀ out ∈ readOutputs bloomData ⟨[], true, []⟩ chunks, out.length ≤ outBuffer

variable (bloomData : Nat → UInt8)

/-! ### `word` -/

theorem word_foldl_scanByte (pre : List UInt8) :
    (pre.foldl (scanByte bloomData) ⟨[], true, []⟩).word <:+ pre ∧
      ∀ b ∈ (pre.foldl (scanByte bloomData) ⟨[], true, []⟩).word, isSeparator b = false := by
  induction pre using List.reverseRecOn with
  | nil => exact ⟨List.nil_suffix, fun b hb => absurd hb List.not_mem_nil⟩
  | append_singleton pre b ih =>
    rw [List.foldl_append, List.foldl_cons, List.foldl_nil]
    generalize pre.foldl (scanByte bloomData) ⟨[], true, []⟩ = st at ih ⊢
    obtain ⟨⟨front, hfront⟩, hrun⟩ := ih
    unfold scanByte
    split
    · exact ⟨List.nil_suffix, fun b hb => absurd hb List.not_mem_nil⟩
    · rename_i hb
      exact ⟨⟨front, by rw [← hfront, List.append_assoc]⟩,
        List.forall_mem_append.mpr ⟨hrun, List.forall_mem_singleton.mpr (by simpa using hb)⟩⟩

theorem wordIndex_lt (input pre post : List UInt8) (curr : UInt8) (hinput : input = pre ++ curr :: post)
    (hruns : ∀ s, s <:+: input → (∀ b ∈ s, isSeparator b = false) → s.length ≤ 63) :
    ∀ i ∈ wordIndex (pre.foldl (scanByte bloomData) ⟨[], true, []⟩) curr, i < maxLength := by
  obtain ⟨⟨front, hfront⟩, hrun⟩ := word_foldl_scanByte bloomData pre
  generalize pre.foldl (scanByte bloomData) ⟨[], true, []⟩ = st at hfront hrun ⊢
  have hinput' : input = front ++ st.word ++ curr :: post := by rw [hinput, ← hfront]
  have hmax : maxLength = 64 := rfl
  intro i hi
  unfold wordIndex at hi
  split at hi
  · -- a separator ends the run: the NUL goes right after it
    split at hi
    · cases hi
      have hinfix : st.word <:+: input := ⟨front, curr :: post, hinput'.symm⟩
      have hlen := hruns _ hinfix hrun
      omega
    · cases hi
  · -- the byte extends the run
    rename_i hcurr
    cases hi
    have hinfix : st.word ++ [curr] <:+: input :=
      ⟨front, post, by rw [hinput']; simp⟩
    have hrun' : ∀ b ∈ st.word ++ [curr], isSeparator b = false :=
      List.forall_mem_append.mpr ⟨hrun, List.forall_mem_singleton.mpr (by simpa using hcurr)⟩
    have hlen := hruns _ hinfix hrun'
    rw [List.length_append, List.length_singleton] at hlen
    omega

/-! ### `bloom_data` -/

theorem foldl_scanByte_run (w : List UInt8) (hw : ∀ b ∈ w, isSeparator b = false) :
    ∀ st : Scan, w.foldl (scanByte bloomData) st = ⟨st.word ++ w, st.allAlpha, st.output⟩ := by
  induction w with
  | nil =>
    intro st
    simp
  | cons b w ih =>
    intro st
    have hb : isSeparator b = false := hw b (List.mem_cons_self ..)
    rw [List.foldl_cons, ih (fun c hc => hw c (List.mem_cons_of_mem _ hc))]
    simp [scanByte, hb]

theorem foldl_scanByte_replicate (w : List UInt8) (hw : ∀ b ∈ w, isSeparator b = false) (k : Nat) :
    ∀ out, ((List.replicate k (w ++ [0x20])).flatten.foldl (scanByte bloomData) ⟨[], true, out⟩) =
      ⟨[], true, out ++ (List.replicate k (writeWord bloomData w true ++ [0x20])).flatten⟩ := by
  induction k with
  | zero =>
    intro out
    simp
  | succ k ih =>
    intro out
    have hspace : isSeparator 0x20 = true := rfl
    rw [List.replicate_succ, List.flatten_cons, List.foldl_append, List.foldl_append,
      foldl_scanByte_run bloomData w hw, List.foldl_cons, List.foldl_nil]
    simp only [List.nil_append, scanByte, hspace, if_true]
    rw [ih]
    simp [List.replicate_succ, List.append_assoc]

theorem writeWord_of_not_member (w : List UInt8) (hne : w ≠ []) (hmiss : member bloomData w = false) :
    writeWord bloomData w true = 0x3C :: w ++ [0x3E] := by
  have hlen : w.length ≠ 0 := by simpa using hne
  simp [writeWord, hlen, hmiss]

/-- One read of 1024 one-byte runs, or of 682 two-byte runs, each followed by a space: when the
filter does not hold the run, `main` builds more than `OUT_BUFFER` bytes of output for the read. -/
theorem main_output_overflows (w : List UInt8) (hlen : w.length = 1 ∨ w.length = 2)
    (hw : ∀ b ∈ w, isSeparator b = false) (hmiss : member bloomData w = false) :
    ((List.replicate (readBuffer / (w.length + 1)) (w ++ [0x20])).flatten).length ≤ readBuffer ∧
      outBuffer < (main bloomData [(List.replicate (readBuffer / (w.length + 1)) (w ++ [0x20])).flatten]).length := by
  have hne : w ≠ [] := by
    intro h
    rw [h] at hlen
    simp at hlen
  have hmain : main bloomData [(List.replicate (readBuffer / (w.length + 1)) (w ++ [0x20])).flatten] =
      (List.replicate (readBuffer / (w.length + 1)) (0x3C :: w ++ [0x3E] ++ [0x20])).flatten := by
    have hfold := foldl_scanByte_replicate bloomData w hw (readBuffer / (w.length + 1)) []
    rw [writeWord_of_not_member bloomData w hne hmiss, List.nil_append] at hfold
    simp only [main, List.foldl_cons, List.foldl_nil, scanChunk, hfold, List.nil_append]
  rw [hmain]
  simp only [List.length_flatten, List.map_replicate, List.sum_replicate, List.length_append,
    List.length_cons, smul_eq_mul]
  have hread : readBuffer = 2048 := rfl
  have hout : outBuffer = 3078 := rfl
  rcases hlen with h | h <;> rw [h, hread, hout] <;> norm_num

theorem output_foldl_scanChunk (chunks : List (List UInt8)) :
    ∀ st : Scan, (chunks.foldl (scanChunk bloomData) st).output =
      st.output ++ (readOutputs bloomData st chunks).flatten := by
  induction chunks with
  | nil =>
    intro st
    simp [readOutputs]
  | cons buffer chunks ih =>
    intro st
    have hnext : readOutputs bloomData (scanChunk bloomData st buffer) chunks =
        readOutputs bloomData (buffer.foldl (scanByte bloomData) ⟨st.word, st.allAlpha, []⟩) chunks := by
      cases chunks <;> rfl
    rw [List.foldl_cons, ih, hnext]
    simp [readOutputs, scanChunk]

theorem main_eq_flatten_readOutputs (chunks : List (List UInt8)) :
    main bloomData chunks = (readOutputs bloomData ⟨[], true, []⟩ chunks).flatten := by
  rw [main, output_foldl_scanChunk, List.nil_append]

theorem main_output_overflows_zq :
    ([0x7A, 0x71] : List UInt8).length = 2 ∧ (∀ b ∈ ([0x7A, 0x71] : List UInt8), isSeparator b = false) ∧
      member (bloomMain [0x61, 0x0A]) [0x7A, 0x71] = false ∧
      (((List.replicate (readBuffer / (([0x7A, 0x71] : List UInt8).length + 1))
          (([0x7A, 0x71] : List UInt8) ++ [0x20])).flatten).length ≤ readBuffer ∧
        outBuffer < (main (bloomMain [0x61, 0x0A])
          [(List.replicate (readBuffer / (([0x7A, 0x71] : List UInt8).length + 1))
            (([0x7A, 0x71] : List UInt8) ++ [0x20])).flatten]).length) :=
  ⟨rfl, by simp [isSeparator], by decide,
    main_output_overflows _ [0x7A, 0x71] (.inr rfl) (by simp [isSeparator]) (by decide)⟩

/-! ### Inside the buffers -/

/-- An input that ends with a separator, read in any chunks that keep `main` inside its buffers:
`main` writes `word` only below `MAX_LENGTH`, and its output is the specification's. -/
theorem main_of_separator_end (chunks : List (List UInt8)) (bytes : List UInt8) (b : UInt8)
    (hbytes : chunks.flatten = bytes ++ [b]) (hb : isSeparator b = true) (hbuffers : InBuffers bloomData chunks) :
    (∀ pre curr post, chunks.flatten = pre ++ curr :: post →
      ∀ i ∈ wordIndex (pre.foldl (scanByte bloomData) ⟨[], true, []⟩) curr, i < maxLength) ∧
    main bloomData chunks = spellCheck (member bloomData) [] chunks.flatten := by
  refine ⟨fun pre curr post hinput => wordIndex_lt bloomData _ pre post curr hinput hbuffers.runs, ?_⟩
  have hlast := main_append_lastWord bloomData chunks
  have hword : (chunks.flatten.foldl (scanByte bloomData) ⟨[], true, []⟩).word = [] := by
    rw [hbytes, List.foldl_append, List.foldl_cons, List.foldl_nil, scanByte, if_pos hb]
  rw [hword, mark, if_pos rfl, List.append_nil] at hlast
  exact hlast

theorem main_of_separator_end_two_chunks :
    (∀ pre curr post, [[0x61, 0x20], [0x62, 0x20]].flatten = pre ++ curr :: post →
      ∀ i ∈ wordIndex (pre.foldl (scanByte fun _ => 0) ⟨[], true, []⟩) curr, i < maxLength) ∧
    main (fun _ => 0) [[0x61, 0x20], [0x62, 0x20]] =
      spellCheck (member fun _ => 0) [] [[0x61, 0x20], [0x62, 0x20]].flatten :=
  main_of_separator_end (fun _ => 0) [[0x61, 0x20], [0x62, 0x20]] [0x61, 0x20, 0x62] 0x20 rfl rfl
    ⟨fun s hs _ => hs.length_le.trans (by decide), by decide⟩

end Ctf3.Level0
