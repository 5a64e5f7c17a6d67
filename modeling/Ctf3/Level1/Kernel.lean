import Mathlib
import Ctf3.Lib.Sha1
import Ctf3.Lib.RingWindow

/-!
# The unrolled SHA-1 kernel

`computeSHA1Block` in `sha1.cu` writes out all 80 rounds of SHA-1 by hand. It keeps only a
16-word schedule `w`, overwrites slot `t % 16` after round `t` for `t < 64`, uses its own forms of
`Ch` (`f1`) and `Maj`, puts `idx` and `id` in words 11 and 12, and returns the first two words of
the new hash value as one 64-bit number.

Each written-out round is one row of `computeSHA1BlockRounds`, which records what the source's
statements for that round read and write: the round function, `k`, the slot added into `temp`,
and the in-place schedule update that follows. `computeSHA1Block` runs the rows in order.
`computeSHA1BlockRounds_eq` checks the whole table against the rolled loop `patternRound`, and
`computeSHA1Block_refines` proves the kernel equal to the compression of `Sha1`: the registers
follow the reference round for round, and the slots hold the window of the full schedule that
`RingWindow` describes.
-/

namespace Ctf3.Level1

open Sha1

/-- `f1`, the kernel's form of `Ch`. -/
def f1 (b c d : UInt32) : UInt32 := (b &&& c) ||| (~~~b &&& d)

/-- The round functions the kernel writes out: `f1(b, c, d)`, `b ^ c ^ d`, and
`(b & c) | (b & d) | (c & d)`. -/
inductive RoundFunction
  | f1
  | parity
  | majority
deriving DecidableEq, Repr

def RoundFunction.eval : RoundFunction → UInt32 → UInt32 → UInt32 → UInt32
  | .f1, b, c, d => Level1.f1 b c d
  | .parity, b, c, d => b ^^^ c ^^^ d
  | .majority, b, c, d => (b &&& c) ||| (b &&& d) ||| (c &&& d)

/-- The statements `w[dst] = w[s0] ^ w[s1] ^ w[s2] ^ w[s3]; w[dst] = w[dst] << 1 | w[dst] >> 31`. -/
structure ScheduleUpdate where
  dst : Fin 16
  s0 : Fin 16
  s1 : Fin 16
  s2 : Fin 16
  s3 : Fin 16
deriving DecidableEq, Repr

/-- One written-out round: `temp = ((a << 5) | (a >> 27)) + fn + e + k + w[slot]`, the register
shift, and the schedule update after it, if the round has one. -/
structure Round where
  fn : RoundFunction
  k : UInt32
  slot : Fin 16
  update : Option ScheduleUpdate
deriving DecidableEq, Repr

/-- The kernel's locals: the registers `a, ..., e` and the schedule `w[16]`. -/
structure Locals where
  regs : Working
  w : Fin 16 → UInt32

/-- What the statements of one round do to the locals. -/
def Round.run (r : Round) (s : Locals) : Locals :=
  let temp := ((s.regs.a <<< 5) ||| (s.regs.a >>> 27)) + r.fn.eval s.regs.b s.regs.c s.regs.d + s.regs.e + r.k +
    s.w r.slot
  -- e = d; d = c; c = (b << 30) | (b >> 2); b = a; a = temp;
  let regs : Working := ⟨temp, s.regs.a, (s.regs.b <<< 30) ||| (s.regs.b >>> 2), s.regs.c, s.regs.d⟩
  match r.update with
  | none => ⟨regs, s.w⟩
  | some u =>
    let w := Function.update s.w u.dst (s.w u.s0 ^^^ s.w u.s1 ^^^ s.w u.s2 ^^^ s.w u.s3)
    ⟨regs, Function.update w u.dst ((w u.dst <<< 1) ||| (w u.dst >>> 31))⟩

/-- The 80 rounds of `computeSHA1Block`, in source order. -/
def computeSHA1BlockRounds : List Round := [
  -- k = 0x5A827999
  ⟨.f1, 0x5A827999, 0, some ⟨0, 13, 8, 2, 0⟩⟩,
  ⟨.f1, 0x5A827999, 1, some ⟨1, 14, 9, 3, 1⟩⟩,
  ⟨.f1, 0x5A827999, 2, some ⟨2, 15, 10, 4, 2⟩⟩,
  ⟨.f1, 0x5A827999, 3, some ⟨3, 0, 11, 5, 3⟩⟩,
  ⟨.f1, 0x5A827999, 4, some ⟨4, 1, 12, 6, 4⟩⟩,
  ⟨.f1, 0x5A827999, 5, some ⟨5, 2, 13, 7, 5⟩⟩,
  ⟨.f1, 0x5A827999, 6, some ⟨6, 3, 14, 8, 6⟩⟩,
  ⟨.f1, 0x5A827999, 7, some ⟨7, 4, 15, 9, 7⟩⟩,
  ⟨.f1, 0x5A827999, 8, some ⟨8, 5, 0, 10, 8⟩⟩,
  ⟨.f1, 0x5A827999, 9, some ⟨9, 6, 1, 11, 9⟩⟩,
  ⟨.f1, 0x5A827999, 10, some ⟨10, 7, 2, 12, 10⟩⟩,
  ⟨.f1, 0x5A827999, 11, some ⟨11, 8, 3, 13, 11⟩⟩,
  ⟨.f1, 0x5A827999, 12, some ⟨12, 9, 4, 14, 12⟩⟩,
  ⟨.f1, 0x5A827999, 13, some ⟨13, 10, 5, 15, 13⟩⟩,
  ⟨.f1, 0x5A827999, 14, some ⟨14, 11, 6, 0, 14⟩⟩,
  ⟨.f1, 0x5A827999, 15, some ⟨15, 12, 7, 1, 15⟩⟩,
  ⟨.f1, 0x5A827999, 0, some ⟨0, 13, 8, 2, 0⟩⟩,
  ⟨.f1, 0x5A827999, 1, some ⟨1, 14, 9, 3, 1⟩⟩,
  ⟨.f1, 0x5A827999, 2, some ⟨2, 15, 10, 4, 2⟩⟩,
  ⟨.f1, 0x5A827999, 3, some ⟨3, 0, 11, 5, 3⟩⟩,
  -- k = 0x6ED9EBA1
  ⟨.parity, 0x6ED9EBA1, 4, some ⟨4, 1, 12, 6, 4⟩⟩,
  ⟨.parity, 0x6ED9EBA1, 5, some ⟨5, 2, 13, 7, 5⟩⟩,
  ⟨.parity, 0x6ED9EBA1, 6, some ⟨6, 3, 14, 8, 6⟩⟩,
  ⟨.parity, 0x6ED9EBA1, 7, some ⟨7, 4, 15, 9, 7⟩⟩,
  ⟨.parity, 0x6ED9EBA1, 8, some ⟨8, 5, 0, 10, 8⟩⟩,
  ⟨.parity, 0x6ED9EBA1, 9, some ⟨9, 6, 1, 11, 9⟩⟩,
  ⟨.parity, 0x6ED9EBA1, 10, some ⟨10, 7, 2, 12, 10⟩⟩,
  ⟨.parity, 0x6ED9EBA1, 11, some ⟨11, 8, 3, 13, 11⟩⟩,
  ⟨.parity, 0x6ED9EBA1, 12, some ⟨12, 9, 4, 14, 12⟩⟩,
  ⟨.parity, 0x6ED9EBA1, 13, some ⟨13, 10, 5, 15, 13⟩⟩,
  ⟨.parity, 0x6ED9EBA1, 14, some ⟨14, 11, 6, 0, 14⟩⟩,
  ⟨.parity, 0x6ED9EBA1, 15, some ⟨15, 12, 7, 1, 15⟩⟩,
  ⟨.parity, 0x6ED9EBA1, 0, some ⟨0, 13, 8, 2, 0⟩⟩,
  ⟨.parity, 0x6ED9EBA1, 1, some ⟨1, 14, 9, 3, 1⟩⟩,
  ⟨.parity, 0x6ED9EBA1, 2, some ⟨2, 15, 10, 4, 2⟩⟩,
  ⟨.parity, 0x6ED9EBA1, 3, some ⟨3, 0, 11, 5, 3⟩⟩,
  ⟨.parity, 0x6ED9EBA1, 4, some ⟨4, 1, 12, 6, 4⟩⟩,
  ⟨.parity, 0x6ED9EBA1, 5, some ⟨5, 2, 13, 7, 5⟩⟩,
  ⟨.parity, 0x6ED9EBA1, 6, some ⟨6, 3, 14, 8, 6⟩⟩,
  ⟨.parity, 0x6ED9EBA1, 7, some ⟨7, 4, 15, 9, 7⟩⟩,
  -- k = 0x8F1BBCDC
  ⟨.majority, 0x8F1BBCDC, 8, some ⟨8, 5, 0, 10, 8⟩⟩,
  ⟨.majority, 0x8F1BBCDC, 9, some ⟨9, 6, 1, 11, 9⟩⟩,
  ⟨.majority, 0x8F1BBCDC, 10, some ⟨10, 7, 2, 12, 10⟩⟩,
  ⟨.majority, 0x8F1BBCDC, 11, some ⟨11, 8, 3, 13, 11⟩⟩,
  ⟨.majority, 0x8F1BBCDC, 12, some ⟨12, 9, 4, 14, 12⟩⟩,
  ⟨.majority, 0x8F1BBCDC, 13, some ⟨13, 10, 5, 15, 13⟩⟩,
  ⟨.majority, 0x8F1BBCDC, 14, some ⟨14, 11, 6, 0, 14⟩⟩,
  ⟨.majority, 0x8F1BBCDC, 15, some ⟨15, 12, 7, 1, 15⟩⟩,
  ⟨.majority, 0x8F1BBCDC, 0, some ⟨0, 13, 8, 2, 0⟩⟩,
  ⟨.majority, 0x8F1BBCDC, 1, some ⟨1, 14, 9, 3, 1⟩⟩,
  ⟨.majority, 0x8F1BBCDC, 2, some ⟨2, 15, 10, 4, 2⟩⟩,
  ⟨.majority, 0x8F1BBCDC, 3, some ⟨3, 0, 11, 5, 3⟩⟩,
  ⟨.majority, 0x8F1BBCDC, 4, some ⟨4, 1, 12, 6, 4⟩⟩,
  ⟨.majority, 0x8F1BBCDC, 5, some ⟨5, 2, 13, 7, 5⟩⟩,
  ⟨.majority, 0x8F1BBCDC, 6, some ⟨6, 3, 14, 8, 6⟩⟩,
  ⟨.majority, 0x8F1BBCDC, 7, some ⟨7, 4, 15, 9, 7⟩⟩,
  ⟨.majority, 0x8F1BBCDC, 8, some ⟨8, 5, 0, 10, 8⟩⟩,
  ⟨.majority, 0x8F1BBCDC, 9, some ⟨9, 6, 1, 11, 9⟩⟩,
  ⟨.majority, 0x8F1BBCDC, 10, some ⟨10, 7, 2, 12, 10⟩⟩,
  ⟨.majority, 0x8F1BBCDC, 11, some ⟨11, 8, 3, 13, 11⟩⟩,
  -- k = 0xCA62C1D6
  ⟨.parity, 0xCA62C1D6, 12, some ⟨12, 9, 4, 14, 12⟩⟩,
  ⟨.parity, 0xCA62C1D6, 13, some ⟨13, 10, 5, 15, 13⟩⟩,
  ⟨.parity, 0xCA62C1D6, 14, some ⟨14, 11, 6, 0, 14⟩⟩,
  ⟨.parity, 0xCA62C1D6, 15, some ⟨15, 12, 7, 1, 15⟩⟩,
  ⟨.parity, 0xCA62C1D6, 0, none⟩,
  ⟨.parity, 0xCA62C1D6, 1, none⟩,
  ⟨.parity, 0xCA62C1D6, 2, none⟩,
  ⟨.parity, 0xCA62C1D6, 3, none⟩,
  ⟨.parity, 0xCA62C1D6, 4, none⟩,
  ⟨.parity, 0xCA62C1D6, 5, none⟩,
  ⟨.parity, 0xCA62C1D6, 6, none⟩,
  ⟨.parity, 0xCA62C1D6, 7, none⟩,
  ⟨.parity, 0xCA62C1D6, 8, none⟩,
  ⟨.parity, 0xCA62C1D6, 9, none⟩,
  ⟨.parity, 0xCA62C1D6, 10, none⟩,
  ⟨.parity, 0xCA62C1D6, 11, none⟩,
  ⟨.parity, 0xCA62C1D6, 12, none⟩,
  ⟨.parity, 0xCA62C1D6, 13, none⟩,
  ⟨.parity, 0xCA62C1D6, 14, none⟩,
  ⟨.parity, 0xCA62C1D6, 15, none⟩
]

/-- `computeSHA1Block(in, id, idx, h)`. -/
def computeSHA1Block (input : Fin 16 → UInt32) (id idx : UInt32) (h : HashValue) : UInt64 :=
  let w : Fin 16 → UInt32 := fun i =>
    if i.val < 11 then input i else if i.val = 11 then idx else if i.val = 12 then id else input i
  let s := computeSHA1BlockRounds.foldl (fun s r => r.run s) ⟨⟨h.h0, h.h1, h.h2, h.h3, h.h4⟩, w⟩
  ((h.h0 + s.regs.a).toUInt64 <<< 32) ||| (h.h1 + s.regs.b).toUInt64

/-! ### The table is the rolled loop -/

/-- Round `t` of the rolled loop: `Ch`, `Parity`, `Maj`, `Parity` by twenties, the constant of the
standard, slot `t % 16`, and for `t < 64` the update of slot `t % 16` from slots `t + 13`, `t + 8`,
`t + 2` and `t` mod 16. -/
def patternRound (t : Nat) : Round where
  fn := if t < 20 then .f1 else if t < 40 then .parity else if t < 60 then .majority else .parity
  k := K t
  slot := ⟨t % 16, Nat.mod_lt _ (by omega)⟩
  update := if t < 64 then
      some ⟨⟨t % 16, Nat.mod_lt _ (by omega)⟩, ⟨(t + 13) % 16, Nat.mod_lt _ (by omega)⟩,
        ⟨(t + 8) % 16, Nat.mod_lt _ (by omega)⟩, ⟨(t + 2) % 16, Nat.mod_lt _ (by omega)⟩,
        ⟨t % 16, Nat.mod_lt _ (by omega)⟩⟩
    else none

theorem computeSHA1BlockRounds_eq : computeSHA1BlockRounds = (List.range 80).map patternRound := by
  decide

theorem eval_patternRound_fn (t : Nat) (b c d : UInt32) : (patternRound t).fn.eval b c d = f t b c d := by
  simp only [patternRound, f]
  split_ifs <;> simp only [RoundFunction.eval, Level1.f1, ch_eq_or, maj_eq_or, parity]

/-! ### Simulation of the reference rounds -/

/-- After `t` rounds the kernel's registers are the reference's working variables, and its slots
hold the window of the schedule that starts at `t`, or at 64 once the updates have stopped. -/
def Simulates (M : Block) (v : Working) (t : Nat) (s : Locals) : Prop :=
  s.regs = rounds (schedule M) t v ∧ RingWindow.Holds (schedule M) (min t 64) s.w

theorem slot_patternRound {M : Block} {t : Nat} {w : Fin 16 → UInt32} (ht : t < 80)
    (hw : RingWindow.Holds (schedule M) (min t 64) w) : w (patternRound t).slot = schedule M t :=
  hw t ⟨by omega, by omega⟩

theorem update_patternRound {M : Block} {t : Nat} {w : Fin 16 → UInt32}
    (hw : RingWindow.Holds (schedule M) t w) :
    w ⟨(t + 13) % 16, Nat.mod_lt _ (by omega)⟩ ^^^ w ⟨(t + 8) % 16, Nat.mod_lt _ (by omega)⟩ ^^^
        w ⟨(t + 2) % 16, Nat.mod_lt _ (by omega)⟩ ^^^ w ⟨t % 16, Nat.mod_lt _ (by omega)⟩ =
      schedule M (t + 13) ^^^ schedule M (t + 8) ^^^ schedule M (t + 2) ^^^ schedule M t := by
  rw [hw.read 13 (by omega), hw.read 8 (by omega), hw.read 2 (by omega), hw t ⟨by omega, by omega⟩]

theorem rotl_one (x : UInt32) : (x <<< 1) ||| (x >>> 31) = rotl 1 x := rfl

theorem rotl_five (x : UInt32) : (x <<< 5) ||| (x >>> 27) = rotl 5 x := rfl

theorem rotl_thirty (x : UInt32) : (x <<< 30) ||| (x >>> 2) = rotl 30 x := rfl

theorem run_patternRound (M : Block) (v : Working) {t : Nat} (ht : t < 80) {s : Locals}
    (hs : Simulates M v t s) : Simulates M v (t + 1) ((patternRound t).run s) := by
  obtain ⟨hregs, hw⟩ := hs
  have hslot := slot_patternRound ht hw
  have hregs' : ((patternRound t).run s).regs = rounds (schedule M) (t + 1) v := by
    rw [rounds_succ, ← hregs]
    simp only [Round.run, step, eval_patternRound_fn, hslot, rotl_five, rotl_thirty]
    split <;> simp only [patternRound]
  refine ⟨hregs', ?_⟩
  by_cases hlt : t < 64
  · -- the update writes `W (t + 16)` over `W t`, which moves the window on
    have hmin : min t 64 = t := by omega
    rw [hmin] at hw
    have hnext : rotl 1 (schedule M (t + 13) ^^^ schedule M (t + 8) ^^^ schedule M (t + 2) ^^^ schedule M t) =
        schedule M (t + 16) := by
      rw [schedule_of_le M (t + 16) (by omega) (by omega)]
      congr 4
    have hwrite := hw.write (by omega : 0 < 16)
    rw [← hnext, ← update_patternRound hw] at hwrite
    rw [show min (t + 1) 64 = t + 1 by omega]
    simp only [Round.run, patternRound, hlt, if_true, Function.update_self, Function.update_idem, rotl_one]
    exact hwrite
  · -- from round 64 on the slots are left as they are
    have hmin : min (t + 1) 64 = min t 64 := by omega
    rw [hmin]
    simp only [Round.run, patternRound, hlt, if_false]
    exact hw

theorem run_patternRounds (M : Block) (v : Working) (s : Locals) (hs : Simulates M v 0 s) (n : Nat) (hn : n ≤ 80) :
    Simulates M v n (((List.range n).map patternRound).foldl (fun s r => r.run s) s) := by
  induction n with
  | zero => exact hs
  | succ n ih =>
    rw [List.range_succ, List.map_append, List.foldl_append]
    exact run_patternRound M v (by omega) (ih (by omega))

/-- The kernel's 80 written-out rounds leave in its registers the reference's working variables,
for the block with words 11 and 12 replaced by `idx` and `id`. -/
theorem regs_computeSHA1BlockRounds (input : Fin 16 → UInt32) (id idx : UInt32) (h : HashValue) :
    (computeSHA1BlockRounds.foldl (fun s (r : Round) => r.run s) ⟨⟨h.h0, h.h1, h.h2, h.h3, h.h4⟩, fun i =>
        if i.val < 11 then input i else if i.val = 11 then idx else if i.val = 12 then id else input i⟩).regs =
      rounds (schedule (Function.update (Function.update input 11 idx) 12 id)) 80 ⟨h.h0, h.h1, h.h2, h.h3, h.h4⟩ := by
  set M := Function.update (Function.update input 11 idx) 12 id with hM
  have hstart : Simulates M ⟨h.h0, h.h1, h.h2, h.h3, h.h4⟩ 0
      ⟨⟨h.h0, h.h1, h.h2, h.h3, h.h4⟩, fun i =>
        if i.val < 11 then input i else if i.val = 11 then idx else if i.val = 12 then id else input i⟩ := by
    refine ⟨rfl, fun s hs => ?_⟩
    have hs16 : s % 16 = s := Nat.mod_eq_of_lt (by omega)
    rw [schedule_of_lt M ⟨s, by omega⟩, hM]
    simp only [hs16]
    by_cases h11 : s = 11
    · subst h11
      simp
    · by_cases h12 : s = 12
      · subst h12
        simp
      · rw [Function.update_of_ne (by simp [Fin.ext_iff, h12]), Function.update_of_ne (by simp [Fin.ext_iff, h11])]
        simp only [h11, h12, if_false, ite_self]
  rw [computeSHA1BlockRounds_eq]
  exact (run_patternRounds M _ _ hstart 80 le_rfl).1

theorem computeSHA1Block_refines (input : Fin 16 → UInt32) (id idx : UInt32) (h : HashValue) :
    computeSHA1Block input id idx h =
      ((compress h (Function.update (Function.update input 11 idx) 12 id)).h0.toUInt64 <<< 32) |||
        (compress h (Function.update (Function.update input 11 idx) 12 id)).h1.toUInt64 := by
  rw [computeSHA1Block]
  simp only [regs_computeSHA1BlockRounds, compress]

end Ctf3.Level1
