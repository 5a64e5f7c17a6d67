import Mathlib
import Ctf3.Level0.Hash
import Ctf3.Level0.SpellCheck

/-!
# The filter builder

`bloom.c` reads the dictionary with `fgets(line, 64, fp)`, drops the last byte of each line with
`line[strlen(line)-1] = 0`, skips lines that start with a capital, and sets the positions of
the rest. The dropped byte is the newline only when there is one: a last line without a newline
loses its last letter, and so does a word of 63 letters, which `fgets` reads without its newline.
`bloom_drops_unterminated_word` is the dictionary `"a"`.
-/

namespace Ctf3.Level0

/-- The bytes `fgets` reads into a buffer that holds `count` of them and the NUL: up to `count`
bytes, through the first newline. -/
def fgetsLine : Nat → List UInt8 → List UInt8
  | 0, _ => []
  | _, [] => []
  | count + 1, b :: rest => if b = 0x0A then [b] else b :: fgetsLine count rest

/-- `isupper` in the C locale. -/
def isupper (c : Int) : Bool := 65 ≤ c ∧ c ≤ 90

/-- One turn of the loop, on the bytes `fgets` read. -/
def insertLine (data : Nat → UInt8) (line : List UInt8) : Nat → UInt8 :=
  -- strlen(line), then line[strlen(line)-1] = 0
  let str := line.takeWhile (· != 0)
  let str := str.take (str.length - 1)
  if isupper (signedChar (str.headD 0)) then data
  else (hash str).foldl (fun data offset => setBit data offset.toNat) data

/-- The `while(fgets(line, sizeof(line), fp) != NULL)` loop over the bytes `file` left to read,
for at most `fuel` lines. -/
def bloomLoop : Nat → List UInt8 → (Nat → UInt8) → Nat → UInt8
  | 0, _, data => data
  | _, [], data => data
  | fuel + 1, file, data =>
    let line := fgetsLine 63 file
    bloomLoop fuel (file.drop line.length) (insertLine data line)

theorem bloomLoop_cons (fuel : Nat) (b : UInt8) (file : List UInt8) (data : Nat → UInt8) :
    bloomLoop (fuel + 1) (b :: file) data =
      bloomLoop fuel ((b :: file).drop (fgetsLine 63 (b :: file)).length) (insertLine data (fgetsLine 63 (b :: file))) :=
  rfl

/-- The table `main` writes to `filter.bin` for the dictionary `file`; every line takes at least one
byte, so `file.length` turns are enough. -/
def bloomMain (file : List UInt8) : Nat → UInt8 := bloomLoop file.length file fun _ => 0

/-- The dictionary `"a"` without a newline: the filter is built from the empty word, does not hold
`a`, and the spell checker writes `<a>`. -/
theorem bloom_drops_unterminated_word :
    member (bloomMain [0x61]) [0x61] = false ∧ writeWord (bloomMain [0x61]) [0x61] true = [0x3C, 0x61, 0x3E] := by
  decide

/-! ### Lines that end in a newline -/

theorem testBit_setBit (data : Nat → UInt8) (offset o : Nat) (h : testBit data o = true) :
    testBit (setBit data offset) o = true := by
  unfold testBit setBit at *
  rw [Function.update_apply]
  split
  · rename_i heq
    rw [heq] at h
    simp only [bne_iff_ne, ne_eq] at h ⊢
    intro hzero
    apply h
    apply UInt8.toBitVec_inj.mp
    have hz := congrArg UInt8.toBitVec hzero
    simp only [UInt8.toBitVec_and, UInt8.toBitVec_or] at hz ⊢
    rw [BitVec.and_or_distrib_right] at hz
    simpa using (BitVec.or_eq_zero_iff.mp hz).1
  · exact h

theorem testBit_setBit_self (data : Nat → UInt8) (offset : Nat) : testBit (setBit data offset) offset = true := by
  unfold testBit setBit
  rw [Function.update_self]
  have hmask : (1 : UInt8) <<< (offset % 8).toUInt8 ≠ 0 := by
    have hk : offset % 8 < 8 := Nat.mod_lt _ (by norm_num)
    generalize offset % 8 = k at hk
    interval_cases k <;> decide
  simp only [bne_iff_ne, ne_eq]
  intro hzero
  apply hmask
  have hz := congrArg UInt8.toBitVec hzero
  apply UInt8.toBitVec_inj.mp
  simp only [UInt8.toBitVec_and, UInt8.toBitVec_or, BitVec.and_or_distrib_right, BitVec.and_self,
    UInt8.toBitVec_zero] at hz ⊢
  exact (BitVec.or_eq_zero_iff.mp hz).2

theorem testBit_foldl_setBit (offsets : List UInt32) (data : Nat → UInt8) (o : Nat) (h : testBit data o = true) :
    testBit (offsets.foldl (fun data offset => setBit data offset.toNat) data) o = true := by
  induction offsets generalizing data with
  | nil => exact h
  | cons offset offsets ih => exact ih _ (testBit_setBit data _ o h)

theorem testBit_foldl_setBit_mem (offsets : List UInt32) (data : Nat → UInt8) (offset : UInt32)
    (hmem : offset ∈ offsets) :
    testBit (offsets.foldl (fun data offset => setBit data offset.toNat) data) offset.toNat = true := by
  induction offsets generalizing data with
  | nil => cases hmem
  | cons o offsets ih =>
    rw [List.foldl_cons]
    rcases List.mem_cons.mp hmem with rfl | hmem
    · exact testBit_foldl_setBit _ _ _ (testBit_setBit_self data _)
    · exact ih _ hmem

theorem testBit_insertLine (data : Nat → UInt8) (line : List UInt8) (o : Nat) (h : testBit data o = true) :
    testBit (insertLine data line) o = true := by
  dsimp only [insertLine]
  split
  · exact h
  · exact testBit_foldl_setBit _ _ _ h

theorem testBit_bloomLoop (fuel : Nat) (file : List UInt8) (data : Nat → UInt8) (o : Nat)
    (h : testBit data o = true) : testBit (bloomLoop fuel file data) o = true := by
  induction fuel generalizing file data with
  | zero => exact h
  | succ fuel ih =>
    cases file with
    | nil => exact h
    | cons b file => exact ih _ _ (testBit_insertLine data _ o h)

theorem fgetsLine_ne_nil (count : Nat) (b : UInt8) (file : List UInt8) :
    fgetsLine (count + 1) (b :: file) ≠ [] := by
  simp only [fgetsLine]
  split <;> simp

theorem fgetsLine_append_drop (count : Nat) (file : List UInt8) :
    fgetsLine count file ++ file.drop (fgetsLine count file).length = file := by
  induction count generalizing file with
  | zero => simp [fgetsLine]
  | succ count ih =>
    cases file with
    | nil => simp [fgetsLine]
    | cons b file =>
      simp only [fgetsLine]
      split
      · simp
      · simp only [List.cons_append, List.length_cons, List.drop_succ_cons, ih]

theorem fgetsLine_append (count : Nat) (pre rest : List UInt8) (hpre : pre.getLast? = some 0x0A) :
    fgetsLine count (pre ++ rest) = fgetsLine count pre := by
  induction pre generalizing count with
  | nil => simp at hpre
  | cons b pre ih =>
    cases count with
    | zero => simp [fgetsLine]
    | succ count =>
      simp only [List.cons_append, fgetsLine]
      split
      · rfl
      · rename_i hb
        have hpre' : pre.getLast? = some 0x0A := by
          cases pre with
          | nil => simp at hpre; exact absurd hpre hb
          | cons c pre => rwa [List.getLast?_cons_cons] at hpre
        rw [ih count hpre']

theorem fgetsLine_line (count : Nat) (w post : List UInt8) (hw : w.length < count) (hnl : 0x0A ∉ w) :
    fgetsLine count (w ++ 0x0A :: post) = w ++ [0x0A] := by
  induction w generalizing count with
  | nil =>
    obtain ⟨count, rfl⟩ : ∃ c, count = c + 1 := ⟨count - 1, by simp at hw; omega⟩
    simp [fgetsLine]
  | cons b w ih =>
    obtain ⟨count, rfl⟩ : ∃ c, count = c + 1 := ⟨count - 1, by simp at hw; omega⟩
    have hb : b ≠ 0x0A := fun h => hnl (h ▸ List.mem_cons_self)
    simp only [List.cons_append, fgetsLine, hb, if_false]
    rw [ih count (by simp at hw; omega) (fun h => hnl (List.mem_cons_of_mem b h))]

theorem bloomLoop_append (rest : List UInt8) :
    ∀ (n : Nat) (pre : List UInt8), pre.length = n → (pre = [] ∨ pre.getLast? = some 0x0A) →
      ∀ (fuel : Nat) (data : Nat → UInt8), ∃ fuel' data', fuel - pre.length ≤ fuel' ∧
        (∀ o, testBit data o = true → testBit data' o = true) ∧
        bloomLoop fuel (pre ++ rest) data = bloomLoop fuel' rest data' := by
  intro n
  induction n using Nat.strong_induction_on with
  | _ n ih =>
  intro pre hn hpre fuel data
  rcases hpre with rfl | hlast
  · exact ⟨fuel, data, by simp, fun _ h => h, rfl⟩
  obtain ⟨b, pre', rfl⟩ : ∃ b pre', pre = b :: pre' := by
    cases pre with
    | nil => simp at hlast
    | cons b pre' => exact ⟨b, pre', rfl⟩
  cases fuel with
  | zero => exact ⟨0, data, by simp, fun _ h => h, by cases rest <;> simp [bloomLoop]⟩
  | succ fuel =>
    have hread : fgetsLine 63 (b :: pre' ++ rest) = fgetsLine 63 (b :: pre') := fgetsLine_append 63 _ rest hlast
    have hsplit := fgetsLine_append_drop 63 (b :: pre')
    have hpos : 0 < (fgetsLine 63 (b :: pre')).length := List.length_pos_iff.mpr (fgetsLine_ne_nil 62 b pre')
    have hafter_last : (b :: pre').drop (fgetsLine 63 (b :: pre')).length = [] ∨
        ((b :: pre').drop (fgetsLine 63 (b :: pre')).length).getLast? = some 0x0A := by
      by_cases hnil : (b :: pre').drop (fgetsLine 63 (b :: pre')).length = []
      · exact .inl hnil
      · right
        rw [← hsplit, List.getLast?_append_of_ne_nil _ hnil] at hlast
        exact hlast
    have hcons : (b :: pre').length = pre'.length + 1 := rfl
    have hlen : ((b :: pre').drop (fgetsLine 63 (b :: pre')).length).length < n := by
      rw [List.length_drop]
      omega
    obtain ⟨fuel', data', hfuel, hmono, hrun⟩ := ih _ hlen _ rfl hafter_last fuel (insertLine data (fgetsLine 63 (b :: pre')))
    refine ⟨fuel', data', by simp only [List.length_drop, List.length_cons] at hfuel ⊢; omega,
      fun o h => hmono o (testBit_insertLine data _ o h), ?_⟩
    rw [← hrun]
    have hdrop : (b :: pre' ++ rest).drop (fgetsLine 63 (b :: pre')).length =
        (b :: pre').drop (fgetsLine 63 (b :: pre')).length ++ rest :=
      List.drop_append_of_le_length (by
        have hl := congrArg List.length hsplit
        rw [List.length_append] at hl
        omega)
    rw [List.cons_append, bloomLoop_cons, ← List.cons_append, hread, hdrop]

theorem member_bloomMain (pre w post u : List UInt8) (hpre : pre = [] ∨ pre.getLast? = some 0x0A)
    (hw : w.length ≤ 62) (hnl : 0x0A ∉ w) (hnul : 0 ∉ w) (hupper : isupper (signedChar (w.headD 0)) = false)
    (hu : (u.takeWhile (· != 0)).map (fun b => tolower (signedChar b)) = w.map fun b => tolower (signedChar b)) :
    member (bloomMain (pre ++ w ++ 0x0A :: post)) u = true := by
  obtain ⟨fuel', data', hfuel, -, hrun⟩ := bloomLoop_append (w ++ 0x0A :: post) pre.length pre rfl hpre
    (pre ++ w ++ 0x0A :: post).length fun _ => 0
  have hfuel' : 1 ≤ fuel' := by simp at hfuel; omega
  obtain ⟨fuel'', rfl⟩ : ∃ f, fuel' = f + 1 := ⟨fuel' - 1, by omega⟩
  have hread := fgetsLine_line 63 w post (by omega) hnl
  have hstr : ((w ++ [0x0A]).takeWhile (· != 0)) = w ++ [0x0A] := by
    rw [List.takeWhile_eq_self_iff]
    intro b hb
    rcases List.mem_append.mp hb with hb | hb
    · simp only [bne_iff_ne, ne_eq]
      rintro rfl
      exact hnul hb
    · simp at hb
      simp [hb]
  have hinsert : insertLine data' (w ++ [0x0A]) = (hash w).foldl (fun data offset => setBit data offset.toNat) data' := by
    simp only [insertLine, hstr, List.length_append, List.length_singleton, Nat.add_sub_cancel, List.take_left' rfl,
      hupper, Bool.false_eq_true, if_false]
  have hhash : hash u = hash w := by
    have hw_str : w.takeWhile (· != 0) = w := by
      rw [List.takeWhile_eq_self_iff]
      intro b hb
      simp only [bne_iff_ne, ne_eq]
      rintro rfl
      exact hnul hb
    simp only [hash, hashState, hu, hw_str]
  have hloop : bloomMain (pre ++ w ++ 0x0A :: post) =
      bloomLoop fuel'' post ((hash w).foldl (fun data offset => setBit data offset.toNat) data') := by
    rw [bloomMain]
    simp only [List.append_assoc] at hrun ⊢
    rw [hrun]
    cases hwpost : w ++ 0x0A :: post with
    | nil => simp at hwpost
    | cons c file =>
      rw [bloomLoop_cons, ← hwpost, hread, ← hinsert]
      congr 1
      simp
  rw [member, hhash, List.all_eq_true, hloop]
  intro offset hoffset
  exact testBit_bloomLoop _ _ _ _ (testBit_foldl_setBit_mem _ _ _ hoffset)

/-- The spell checker writes such a word as it is. -/
theorem writeWord_bloomMain (pre w post u : List UInt8) (hpre : pre = [] ∨ pre.getLast? = some 0x0A)
    (hw : w.length ≤ 62) (hnl : 0x0A ∉ w) (hnul : 0 ∉ w) (hupper : isupper (signedChar (w.headD 0)) = false)
    (hu : (u.takeWhile (· != 0)).map (fun b => tolower (signedChar b)) = w.map fun b => tolower (signedChar b))
    (hne : u ≠ []) :
    writeWord (bloomMain (pre ++ w ++ 0x0A :: post)) u true = u := by
  have hlen : u.length ≠ 0 := by simpa using hne
  have hmem := member_bloomMain pre w post u hpre hw hnl hnul hupper hu
  simp only [writeWord, ne_eq, hlen, not_false_eq_true, if_true, Bool.true_and, hmem]

theorem writeWord_bloomMain_ab :
    writeWord (bloomMain ([] ++ [0x61, 0x62] ++ 0x0A :: [])) [0x61, 0x62] true = [0x61, 0x62] :=
  writeWord_bloomMain [] [0x61, 0x62] [] [0x61, 0x62] (.inl rfl) (by decide) (by decide) (by decide) (by decide)
    (by decide) (by decide)

end Ctf3.Level0
