import Mathlib
import Ctf3.Level0.Hash

/-!
# The spell checker

`level0.c` copies standard input to standard output, writing each run of bytes other than `' '`
and `'\n'` as it is when the Bloom filter holds it and between `<` and `>` otherwise. A run can
straddle two reads, so the word in progress is kept across them while the output is written after
each read. `main_flatten` shows that how the input is split does not matter, and
`main_append_lastWord` that the output is the specification `spellCheck` less the last run: a run
at the end of the input, after the last separator, is never written (`main_drops_last_word`).
-/

namespace Ctf3.Level0

def maxLength : Nat := 64

def readBuffer : Nat := 2048

/-- `curr == '\n' || curr == ' '`. -/
def isSeparator (curr : UInt8) : Bool := curr == 0x0A || curr == 0x20

/-- The bytes `write_word(word, len, output, all_alpha)` writes, `len` of them or `len + 2`. -/
def writeWord (bloomData : Nat → UInt8) (word : List UInt8) (allAlpha : Bool) : List UInt8 :=
  if word.length ≠ 0 then
    let allAlpha := allAlpha && member bloomData word
    if allAlpha then word else 0x3C :: word ++ [0x3E]
  else []

/-- `main`'s variables between two bytes: `word[0 .. word_pos)`, `all_alpha`, and
`output[0 .. out_pos)`. -/
structure Scan where
  word : List UInt8
  allAlpha : Bool
  output : List UInt8

/-- One turn of the inner `for` loop, on the byte `curr`. -/
def scanByte (bloomData : Nat → UInt8) (st : Scan) (curr : UInt8) : Scan :=
  if isSeparator curr then ⟨[], true, st.output ++ writeWord bloomData st.word st.allAlpha ++ [curr]⟩
  else
    -- if(!isalpha) all_alpha = 0: isalpha names the function, which is never null
    ⟨st.word ++ [curr], st.allAlpha, st.output⟩

/-- One `read` that returned the bytes `buffer`, and the `write(1, output, out_pos)` after it:
the state carried to the next read and the bytes written. -/
def scanChunk (bloomData : Nat → UInt8) (st : Scan) (buffer : List UInt8) : Scan :=
  let after := buffer.foldl (scanByte bloomData) ⟨st.word, st.allAlpha, []⟩
  ⟨after.word, after.allAlpha, st.output ++ after.output⟩

/-- Everything `main` writes when the reads return `chunks` and then end of file. -/
def main (bloomData : Nat → UInt8) (chunks : List (List UInt8)) : List UInt8 :=
  (chunks.foldl (scanChunk bloomData) ⟨[], true, []⟩).output

/-! ### The specification -/

/-- A run as the specification writes it. -/
def mark (isMember : List UInt8 → Bool) (w : List UInt8) : List UInt8 :=
  if w = [] then [] else if isMember w then w else 0x3C :: w ++ [0x3E]

/-- The input with each maximal run `w` of non-separators replaced by `mark w`; `run` is the part
of the current run already read. -/
def spellCheck (isMember : List UInt8 → Bool) : List UInt8 → List UInt8 → List UInt8
  | run, [] => mark isMember run
  | run, b :: rest =>
    if isSeparator b then mark isMember run ++ [b] ++ spellCheck isMember [] rest
    else spellCheck isMember (run ++ [b]) rest

/-! ### One run over all the bytes -/

variable (bloomData : Nat → UInt8)

theorem writeWord_true (word : List UInt8) : writeWord bloomData word true = mark (member bloomData) word := by
  unfold writeWord mark
  by_cases hw : word = []
  · simp [hw]
  · have hlen : word.length ≠ 0 := by simpa using hw
    simp [hw, hlen]

theorem foldl_scanByte_output (bytes : List UInt8) (word : List UInt8) (allAlpha : Bool) (out : List UInt8) :
    bytes.foldl (scanByte bloomData) ⟨word, allAlpha, out⟩ =
      ⟨(bytes.foldl (scanByte bloomData) ⟨word, allAlpha, []⟩).word,
        (bytes.foldl (scanByte bloomData) ⟨word, allAlpha, []⟩).allAlpha,
        out ++ (bytes.foldl (scanByte bloomData) ⟨word, allAlpha, []⟩).output⟩ := by
  induction bytes generalizing word allAlpha out with
  | nil => simp
  | cons b bytes ih =>
    simp only [List.foldl_cons, scanByte]
    split
    · rw [ih [] true (out ++ writeWord bloomData word allAlpha ++ [b]),
        ih [] true ([] ++ writeWord bloomData word allAlpha ++ [b])]
      simp
    · rw [ih _ _ out, ih _ _ []]

theorem foldl_scanChunk (chunks : List (List UInt8)) (st : Scan) :
    chunks.foldl (scanChunk bloomData) st = chunks.flatten.foldl (scanByte bloomData) st := by
  induction chunks generalizing st with
  | nil => rfl
  | cons chunk chunks ih =>
    rw [List.foldl_cons, ih, List.flatten_cons, List.foldl_append, foldl_scanByte_output bloomData chunk]
    rfl

theorem foldl_scanByte (bytes : List UInt8) (run out : List UInt8) :
    (bytes.foldl (scanByte bloomData) ⟨run, true, out⟩).allAlpha = true ∧
      (bytes.foldl (scanByte bloomData) ⟨run, true, out⟩).output ++
        mark (member bloomData) (bytes.foldl (scanByte bloomData) ⟨run, true, out⟩).word =
      out ++ spellCheck (member bloomData) run bytes := by
  induction bytes generalizing run out with
  | nil => simp [spellCheck]
  | cons b bytes ih =>
    simp only [List.foldl_cons, scanByte, spellCheck]
    split
    · rw [writeWord_true]
      obtain ⟨halpha, hout⟩ := ih [] (out ++ mark (member bloomData) run ++ [b])
      exact ⟨halpha, by rw [hout]; simp⟩
    · exact ih (run ++ [b]) out

theorem main_append_lastWord (chunks : List (List UInt8)) :
    main bloomData chunks ++
        mark (member bloomData) (chunks.flatten.foldl (scanByte bloomData) ⟨[], true, []⟩).word =
      spellCheck (member bloomData) [] chunks.flatten := by
  rw [main, foldl_scanChunk]
  simpa using (foldl_scanByte bloomData chunks.flatten [] []).2

/-- The input `"a"`, one read of one byte: nothing is written, where the specification writes
`a` or `<a>`. -/
theorem main_drops_last_word : main bloomData [[0x61]] = [] ∧ spellCheck (member bloomData) [] [0x61] ≠ [] := by
  refine ⟨rfl, ?_⟩
  have hsep : isSeparator 0x61 = false := rfl
  simp only [spellCheck, hsep, Bool.false_eq_true, if_false, List.nil_append, mark, List.cons_ne_nil, if_false]
  split <;> simp

end Ctf3.Level0
