import Mathlib
import Ctf3.Lib.ByteOrder
import Ctf3.Lib.Sha1
import Ctf3.Lib.RingWindow
import Ctf3.Level1.Common
import Ctf3.Level1.ForceHash

/-!
# The OpenCL backend

`kernel.cl` unrolls SHA-1 with a macro `P(a, b, c, d, e, x)` that adds into `e` and rotates `b`,
naming the five registers in another order each round, and a macro `R(t)` that computes schedule
word `t` into its slot of `W` as the round uses it. `shaforceRounds` lists the 80 calls in source
order, `shaforceRounds_eq` checks them against `pattern`, and `pass_eq_rounds` proves a pass of
them equal to the 80 rounds of `Sha1.step` from the registers: the compression without its
feed-forward (`compress_h0`).

A work item sets `W[10]` to `j` and `W[12]` to its global id and repeats the pass until
`A & *mask` is zero. Its loop `for(j=0; j < 256; i++)` increments `i`: `j` stays `0`, the test never
fails, and the registers carry over from one pass to the next (`shaforce_found`). `force_hash`
writes `idx` into word 11 before each launch and, once `*result` is set, stores `result - 1` and
`idx` into words 12 and 11 of the buffer in host byte order, without the swap of the upload
(`forceHash_found`).

A pass can be undone (`pass_injective`), so after `passBound` passes the registers are back where
they started: from a midstate whose `h0` passes the mask every work item finds and every launch
ends (`launch_terminates`). What the host writes back is not what the kernel tested: the digest is
the midstate plus the `A` of one pass, on the block with the id byte-swapped (`hash_writeBack_h0`),
and a run can return with `found` set and a digest that misses the mask (`forceHash_misses_mask`).
-/

namespace Ctf3.Level1.OpenCL

open ByteOrder Sha1

/-- `W` and the block have sixteen words; their index literals take this proof. -/
local instance neZeroSixteen : NeZero 16 := ⟨by decide⟩

def concurrency : Nat := 384

inductive Reg
  | A
  | B
  | C
  | D
  | E
deriving DecidableEq, Repr

instance : Fintype Reg where
  elems := {.A, .B, .C, .D, .E}
  complete r := by cases r <;> simp

inductive RoundF
  | ch
  | parity
  | maj
deriving DecidableEq, Repr

/-- The three definitions of the macro `F`. -/
def RoundF.eval : RoundF → UInt32 → UInt32 → UInt32 → UInt32
  | .ch, x, y, z => z ^^^ (x &&& (y ^^^ z))
  | .parity, x, y, z => x ^^^ y ^^^ z
  | .maj, x, y, z => (x &&& y) ||| (z &&& (x ||| y))

/-- The last argument of `P`: `W[i]` or `R(t)`. -/
inductive Operand
  | w (i : Fin 16)
  | r (t : Nat)
deriving DecidableEq, Repr

/-- A call `P(a, b, c, d, e, x)` with the `F` and `K` defined at that point of the source. -/
structure Call where
  f : RoundF
  k : UInt32
  a : Reg
  b : Reg
  c : Reg
  d : Reg
  e : Reg
  x : Operand
deriving DecidableEq, Repr

structure Locals where
  regs : Reg → UInt32
  W : Fin 16 → UInt32

/-- `W[i & 0x0F]`. -/
def slot (i : Nat) : Fin 16 := ⟨i &&& 0x0F, Nat.lt_succ_of_le Nat.and_le_right⟩

/-- The value of the operand, and `W` after it: `R(t)` stores the word it computes. -/
def Operand.eval (W : Fin 16 → UInt32) : Operand → UInt32 × (Fin 16 → UInt32)
  | .w i => (W i, W)
  | .r t =>
    let temp := W (slot (t - 3)) ^^^ W (slot (t - 8)) ^^^ W (slot (t - 14)) ^^^ W (slot t)
    (rotl 1 temp, Function.update W (slot t) (rotl 1 temp))

/-- `e += rotate((int)a,5) + F(b,c,d) + K + x; b = rotate((int)b,30);` -/
def Call.run (p : Call) (s : Locals) : Locals :=
  let x := p.x.eval s.W
  let regs := Function.update s.regs p.e
    (s.regs p.e + (rotl 5 (s.regs p.a) + p.f.eval (s.regs p.b) (s.regs p.c) (s.regs p.d) + p.k + x.1))
  ⟨Function.update regs p.b (rotl 30 (regs p.b)), x.2⟩

/-- The 80 calls of `shaforce`, in source order. -/
def shaforceRounds : List Call := [
  ⟨.ch, 0x5A827999, .A, .B, .C, .D, .E, .w 0⟩,
  ⟨.ch, 0x5A827999, .E, .A, .B, .C, .D, .w 1⟩,
  ⟨.ch, 0x5A827999, .D, .E, .A, .B, .C, .w 2⟩,
  ⟨.ch, 0x5A827999, .C, .D, .E, .A, .B, .w 3⟩,
  ⟨.ch, 0x5A827999, .B, .C, .D, .E, .A, .w 4⟩,
  ⟨.ch, 0x5A827999, .A, .B, .C, .D, .E, .w 5⟩,
  ⟨.ch, 0x5A827999, .E, .A, .B, .C, .D, .w 6⟩,
  ⟨.ch, 0x5A827999, .D, .E, .A, .B, .C, .w 7⟩,
  ⟨.ch, 0x5A827999, .C, .D, .E, .A, .B, .w 8⟩,
  ⟨.ch, 0x5A827999, .B, .C, .D, .E, .A, .w 9⟩,
  ⟨.ch, 0x5A827999, .A, .B, .C, .D, .E, .w 10⟩,
  ⟨.ch, 0x5A827999, .E, .A, .B, .C, .D, .w 11⟩,
  ⟨.ch, 0x5A827999, .D, .E, .A, .B, .C, .w 12⟩,
  ⟨.ch, 0x5A827999, .C, .D, .E, .A, .B, .w 13⟩,
  ⟨.ch, 0x5A827999, .B, .C, .D, .E, .A, .w 14⟩,
  ⟨.ch, 0x5A827999, .A, .B, .C, .D, .E, .w 15⟩,
  ⟨.ch, 0x5A827999, .E, .A, .B, .C, .D, .r 16⟩,
  ⟨.ch, 0x5A827999, .D, .E, .A, .B, .C, .r 17⟩,
  ⟨.ch, 0x5A827999, .C, .D, .E, .A, .B, .r 18⟩,
  ⟨.ch, 0x5A827999, .B, .C, .D, .E, .A, .r 19⟩,
  ⟨.parity, 0x6ED9EBA1, .A, .B, .C, .D, .E, .r 20⟩,
  ⟨.parity, 0x6ED9EBA1, .E, .A, .B, .C, .D, .r 21⟩,
  ⟨.parity, 0x6ED9EBA1, .D, .E, .A, .B, .C, .r 22⟩,
  ⟨.parity, 0x6ED9EBA1, .C, .D, .E, .A, .B, .r 23⟩,
  ⟨.parity, 0x6ED9EBA1, .B, .C, .D, .E, .A, .r 24⟩,
  ⟨.parity, 0x6ED9EBA1, .A, .B, .C, .D, .E, .r 25⟩,
  ⟨.parity, 0x6ED9EBA1, .E, .A, .B, .C, .D, .r 26⟩,
  ⟨.parity, 0x6ED9EBA1, .D, .E, .A, .B, .C, .r 27⟩,
  ⟨.parity, 0x6ED9EBA1, .C, .D, .E, .A, .B, .r 28⟩,
  ⟨.parity, 0x6ED9EBA1, .B, .C, .D, .E, .A, .r 29⟩,
  ⟨.parity, 0x6ED9EBA1, .A, .B, .C, .D, .E, .r 30⟩,
  ⟨.parity, 0x6ED9EBA1, .E, .A, .B, .C, .D, .r 31⟩,
  ⟨.parity, 0x6ED9EBA1, .D, .E, .A, .B, .C, .r 32⟩,
  ⟨.parity, 0x6ED9EBA1, .C, .D, .E, .A, .B, .r 33⟩,
  ⟨.parity, 0x6ED9EBA1, .B, .C, .D, .E, .A, .r 34⟩,
  ⟨.parity, 0x6ED9EBA1, .A, .B, .C, .D, .E, .r 35⟩,
  ⟨.parity, 0x6ED9EBA1, .E, .A, .B, .C, .D, .r 36⟩,
  ⟨.parity, 0x6ED9EBA1, .D, .E, .A, .B, .C, .r 37⟩,
  ⟨.parity, 0x6ED9EBA1, .C, .D, .E, .A, .B, .r 38⟩,
  ⟨.parity, 0x6ED9EBA1, .B, .C, .D, .E, .A, .r 39⟩,
  ⟨.maj, 0x8F1BBCDC, .A, .B, .C, .D, .E, .r 40⟩,
  ⟨.maj, 0x8F1BBCDC, .E, .A, .B, .C, .D, .r 41⟩,
  ⟨.maj, 0x8F1BBCDC, .D, .E, .A, .B, .C, .r 42⟩,
  ⟨.maj, 0x8F1BBCDC, .C, .D, .E, .A, .B, .r 43⟩,
  ⟨.maj, 0x8F1BBCDC, .B, .C, .D, .E, .A, .r 44⟩,
  ⟨.maj, 0x8F1BBCDC, .A, .B, .C, .D, .E, .r 45⟩,
  ⟨.maj, 0x8F1BBCDC, .E, .A, .B, .C, .D, .r 46⟩,
  ⟨.maj, 0x8F1BBCDC, .D, .E, .A, .B, .C, .r 47⟩,
  ⟨.maj, 0x8F1BBCDC, .C, .D, .E, .A, .B, .r 48⟩,
  ⟨.maj, 0x8F1BBCDC, .B, .C, .D, .E, .A, .r 49⟩,
  ⟨.maj, 0x8F1BBCDC, .A, .B, .C, .D, .E, .r 50⟩,
  ⟨.maj, 0x8F1BBCDC, .E, .A, .B, .C, .D, .r 51⟩,
  ⟨.maj, 0x8F1BBCDC, .D, .E, .A, .B, .C, .r 52⟩,
  ⟨.maj, 0x8F1BBCDC, .C, .D, .E, .A, .B, .r 53⟩,
  ⟨.maj, 0x8F1BBCDC, .B, .C, .D, .E, .A, .r 54⟩,
  ⟨.maj, 0x8F1BBCDC, .A, .B, .C, .D, .E, .r 55⟩,
  ⟨.maj, 0x8F1BBCDC, .E, .A, .B, .C, .D, .r 56⟩,
  ⟨.maj, 0x8F1BBCDC, .D, .E, .A, .B, .C, .r 57⟩,
  ⟨.maj, 0x8F1BBCDC, .C, .D, .E, .A, .B, .r 58⟩,
  ⟨.maj, 0x8F1BBCDC, .B, .C, .D, .E, .A, .r 59⟩,
  ⟨.parity, 0xCA62C1D6, .A, .B, .C, .D, .E, .r 60⟩,
  ⟨.parity, 0xCA62C1D6, .E, .A, .B, .C, .D, .r 61⟩,
  ⟨.parity, 0xCA62C1D6, .D, .E, .A, .B, .C, .r 62⟩,
  ⟨.parity, 0xCA62C1D6, .C, .D, .E, .A, .B, .r 63⟩,
  ⟨.parity, 0xCA62C1D6, .B, .C, .D, .E, .A, .r 64⟩,
  ⟨.parity, 0xCA62C1D6, .A, .B, .C, .D, .E, .r 65⟩,
  ⟨.parity, 0xCA62C1D6, .E, .A, .B, .C, .D, .r 66⟩,
  ⟨.parity, 0xCA62C1D6, .D, .E, .A, .B, .C, .r 67⟩,
  ⟨.parity, 0xCA62C1D6, .C, .D, .E, .A, .B, .r 68⟩,
  ⟨.parity, 0xCA62C1D6, .B, .C, .D, .E, .A, .r 69⟩,
  ⟨.parity, 0xCA62C1D6, .A, .B, .C, .D, .E, .r 70⟩,
  ⟨.parity, 0xCA62C1D6, .E, .A, .B, .C, .D, .r 71⟩,
  ⟨.parity, 0xCA62C1D6, .D, .E, .A, .B, .C, .r 72⟩,
  ⟨.parity, 0xCA62C1D6, .C, .D, .E, .A, .B, .r 73⟩,
  ⟨.parity, 0xCA62C1D6, .B, .C, .D, .E, .A, .r 74⟩,
  ⟨.parity, 0xCA62C1D6, .A, .B, .C, .D, .E, .r 75⟩,
  ⟨.parity, 0xCA62C1D6, .E, .A, .B, .C, .D, .r 76⟩,
  ⟨.parity, 0xCA62C1D6, .D, .E, .A, .B, .C, .r 77⟩,
  ⟨.parity, 0xCA62C1D6, .C, .D, .E, .A, .B, .r 78⟩,
  ⟨.parity, 0xCA62C1D6, .B, .C, .D, .E, .A, .r 79⟩
]

/-- One pass of the loop body up to its test: `W` from `block` with `W[12]` the global id and
`W[10] = j`, and the 80 calls. -/
def pass (block : Fin 16 → UInt32) (globalId : UInt32) (j : UInt8) (regs : Reg → UInt32) : Reg → UInt32 :=
  let W := Function.update (Function.update block 12 globalId) 10 j.toUInt32
  (shaforceRounds.foldl (fun s (p : Call) => p.run s) ⟨regs, W⟩).regs

/-! ### The table is the rolled loop -/

def Reg.ofFin : Fin 5 → Reg
  | 0 => .A
  | 1 => .B
  | 2 => .C
  | 3 => .D
  | 4 => .E

/-- The register that plays part `i` of `P` in round `t`, `a` being part `0` and `e` part `4`. -/
def role (t : Nat) (i : Fin 5) : Reg := Reg.ofFin ⟨(i + 5 - t % 5) % 5, Nat.mod_lt _ (by omega)⟩

/-- Round `t` of the rolled loop: the registers move one part on each round, `F` and `K` change
every twenty rounds, and from round 16 on the operand is `R(t)`. -/
def pattern (t : Nat) : Call where
  f := if t < 20 then .ch else if t < 40 then .parity else if t < 60 then .maj else .parity
  k := K t
  a := role t 0
  b := role t 1
  c := role t 2
  d := role t 3
  e := role t 4
  x := if h : t < 16 then .w ⟨t, h⟩ else .r t

theorem shaforceRounds_eq : shaforceRounds = (List.range 80).map pattern := by
  decide

theorem eval_pattern_f (t : Nat) (x y z : UInt32) : (pattern t).f.eval x y z = f t x y z := by
  have hch : z ^^^ (x &&& (y ^^^ z)) = ch x y z := by
    apply UInt32.toBitVec_inj.mp
    simp only [ch, UInt32.toBitVec_xor, UInt32.toBitVec_and, UInt32.toBitVec_not]
    ext i hi
    simp only [BitVec.getElem_xor, BitVec.getElem_and, BitVec.getElem_not]
    cases x.toBitVec[i] <;> cases y.toBitVec[i] <;> cases z.toBitVec[i] <;> rfl
  have hmaj : (x &&& y) ||| (z &&& (x ||| y)) = maj x y z := by
    apply UInt32.toBitVec_inj.mp
    simp only [maj, UInt32.toBitVec_xor, UInt32.toBitVec_or, UInt32.toBitVec_and]
    ext i hi
    simp only [BitVec.getElem_xor, BitVec.getElem_or, BitVec.getElem_and]
    cases x.toBitVec[i] <;> cases y.toBitVec[i] <;> cases z.toBitVec[i] <;> rfl
  simp only [pattern, f]
  split_ifs <;> simp only [RoundF.eval, hch, hmaj, parity]

theorem role_succ (t : Nat) (i : Fin 5) : role (t + 1) (i + 1) = role t i := by
  unfold role
  congr 1
  ext
  simp only [Fin.val_add]
  omega

theorem role_injective (t : Nat) : Function.Injective (role t) := by
  intro i j h
  have hfin : Function.Injective Reg.ofFin := by decide
  have hidx := congrArg Fin.val (hfin h)
  ext
  simp only at hidx
  omega

theorem slot_eq (i : Nat) : slot i = ⟨i % 16, Nat.mod_lt _ (Nat.succ_pos 15)⟩ := by
  ext
  exact Nat.and_two_pow_sub_one_eq_mod i 4

/-! ### Simulation of the reference rounds -/

/-- After `t` rounds the register of each part holds that working variable of the reference, and
`W` holds the window of the schedule that ends at word `t`. -/
def Simulates (M : Block) (v : Working) (t : Nat) (s : Locals) : Prop :=
  s.regs (role t 0) = (rounds (schedule M) t v).a ∧ s.regs (role t 1) = (rounds (schedule M) t v).b ∧
    s.regs (role t 2) = (rounds (schedule M) t v).c ∧ s.regs (role t 3) = (rounds (schedule M) t v).d ∧
    s.regs (role t 4) = (rounds (schedule M) t v).e ∧ RingWindow.Holds (schedule M) (t - 16) s.W

theorem eval_pattern_x {M : Block} {t : Nat} (ht : t < 80) {W : Fin 16 → UInt32}
    (hW : RingWindow.Holds (schedule M) (t - 16) W) :
    ((pattern t).x.eval W).1 = schedule M t ∧
      RingWindow.Holds (schedule M) (t + 1 - 16) ((pattern t).x.eval W).2 := by
  by_cases h16 : t < 16
  · have hread := hW t ⟨by omega, by omega⟩
    have hslot : (⟨t % 16, Nat.mod_lt _ (by omega)⟩ : Fin 16) = ⟨t, h16⟩ := Fin.ext (Nat.mod_eq_of_lt h16)
    rw [hslot] at hread
    simp only [pattern, dif_pos h16, Operand.eval]
    exact ⟨hread, by rw [show t + 1 - 16 = t - 16 by omega]; exact hW⟩
  · -- `R(t)` reads words `t - 3`, `t - 8`, `t - 14` and `t - 16`, and writes word `t` over the last
    have hstart : t - 16 + 16 = t := by omega
    have hslot : slot t = ⟨(t - 16) % 16, Nat.mod_lt _ (by omega)⟩ := by
      rw [slot_eq]
      ext
      simp only
      omega
    have hword : rotl 1 (W (slot (t - 3)) ^^^ W (slot (t - 8)) ^^^ W (slot (t - 14)) ^^^ W (slot t)) =
        schedule M t := by
      rw [schedule_of_le M t (by omega) ht, hslot, slot_eq, slot_eq, slot_eq,
        show t - 3 = t - 16 + 13 by omega, show t - 8 = t - 16 + 8 by omega,
        show t - 14 = t - 16 + 2 by omega, hW.read 13 (by omega), hW.read 8 (by omega),
        hW.read 2 (by omega)]
      have hlast := hW.read 0 (by omega)
      simp only [Nat.add_zero] at hlast
      rw [hlast]
    have hwrite := hW.write (by omega : 0 < 16)
    rw [hstart] at hwrite
    simp only [pattern, dif_neg h16, Operand.eval]
    refine ⟨hword, ?_⟩
    rw [hword, hslot, show t + 1 - 16 = t - 16 + 1 by omega]
    exact hwrite

theorem add_into_e (e a5 f k x : UInt32) : e + (a5 + f + k + x) = a5 + f + e + k + x := by
  ac_rfl

theorem run_pattern (M : Block) (v : Working) {t : Nat} (ht : t < 80) {s : Locals}
    (hs : Simulates M v t s) : Simulates M v (t + 1) ((pattern t).run s) := by
  obtain ⟨ha, hb, hc, hd, he, hW⟩ := hs
  obtain ⟨hx, hW'⟩ := eval_pattern_x ht hW
  have hne : ∀ {i j : Fin 5}, i ≠ j → role t i ≠ role t j := fun hij h => hij (role_injective t h)
  have h0 : role (t + 1) 0 = role t 4 := role_succ t 4
  have h1 : role (t + 1) 1 = role t 0 := role_succ t 0
  have h2 : role (t + 1) 2 = role t 1 := role_succ t 1
  have h3 : role (t + 1) 3 = role t 2 := role_succ t 2
  have h4 : role (t + 1) 4 = role t 3 := role_succ t 3
  have hparts : (pattern t).a = role t 0 ∧ (pattern t).b = role t 1 ∧ (pattern t).c = role t 2 ∧
      (pattern t).d = role t 3 ∧ (pattern t).e = role t 4 := ⟨rfl, rfl, rfl, rfl, rfl⟩
  simp only [Simulates, rounds_succ, Call.run, hparts, h0, h1, h2, h3, h4, step]
  refine ⟨?_, ?_, ?_, ?_, ?_, hW'⟩
  · rw [Function.update_of_ne (hne (by decide)), Function.update_self, hx, ha, hb, hc, hd, he,
      eval_pattern_f t]
    exact add_into_e _ _ _ _ _
  · rw [Function.update_of_ne (hne (by decide)), Function.update_of_ne (hne (by decide)), ha]
  · rw [Function.update_self, Function.update_of_ne (hne (by decide)), hb]
  · rw [Function.update_of_ne (hne (by decide)), Function.update_of_ne (hne (by decide)), hc]
  · rw [Function.update_of_ne (hne (by decide)), Function.update_of_ne (hne (by decide)), hd]

theorem run_patterns (M : Block) (v : Working) (s : Locals) (hs : Simulates M v 0 s) (n : Nat) (hn : n ≤ 80) :
    Simulates M v n (((List.range n).map pattern).foldl (fun s (p : Call) => p.run s) s) := by
  induction n with
  | zero => exact hs
  | succ n ih =>
    rw [List.range_succ, List.map_append, List.foldl_append]
    exact run_pattern M v (by omega) (ih (by omega))

def working (regs : Reg → UInt32) : Working := ⟨regs .A, regs .B, regs .C, regs .D, regs .E⟩

/-- The kernel's arguments `A, ..., E`, set from `h0, ..., h4` of the host's `SHA_CTX`. -/
def kernelArgs (h : HashValue) : Reg → UInt32
  | .A => h.h0
  | .B => h.h1
  | .C => h.h2
  | .D => h.h3
  | .E => h.h4

theorem pass_eq_rounds (block : Fin 16 → UInt32) (globalId : UInt32) (j : UInt8) (regs : Reg → UInt32) :
    working (pass block globalId j regs) =
      rounds (schedule (Function.update (Function.update block 12 globalId) 10 j.toUInt32)) 80 (working regs) := by
  set M := Function.update (Function.update block 12 globalId) 10 j.toUInt32
  have hstart : Simulates M (working regs) 0 ⟨regs, M⟩ := by
    refine ⟨rfl, rfl, rfl, rfl, rfl, fun t ht => ?_⟩
    rw [schedule_of_lt M ⟨t, by omega⟩]
    exact congrArg M (Fin.ext (Nat.mod_eq_of_lt (by omega)))
  obtain ⟨ha, hb, hc, hd, he, -⟩ := run_patterns M _ _ hstart 80 le_rfl
  have hpass : pass block globalId j regs =
      (((List.range 80).map pattern).foldl (fun s (p : Call) => p.run s) ⟨regs, M⟩).regs := by
    rw [← shaforceRounds_eq]
    rfl
  rw [hpass, working, show Reg.A = role 80 0 from rfl, show Reg.B = role 80 1 from rfl,
    show Reg.C = role 80 2 from rfl, show Reg.D = role 80 3 from rfl, show Reg.E = role 80 4 from rfl,
    ha, hb, hc, hd, he]

theorem compress_h0 (ctx : HashValue) (block : Fin 16 → UInt32) (globalId : UInt32) (j : UInt8) :
    (compress ctx (Function.update (Function.update block 12 globalId) 10 j.toUInt32)).h0 =
      ctx.h0 + pass block globalId j (kernelArgs ctx) .A := by
  have h := congrArg Working.a (pass_eq_rounds block globalId j (kernelArgs ctx))
  show ctx.h0 + (rounds _ 80 (working (kernelArgs ctx))).a = _
  rw [← h]
  rfl

theorem working_injective : Function.Injective working := by
  intro regs regs' h
  simp only [working, Working.mk.injEq] at h
  obtain ⟨ha, hb, hc, hd, he⟩ := h
  funext r
  cases r <;> assumption

theorem pass_injective (block : Fin 16 → UInt32) (globalId : UInt32) (j : UInt8) :
    Function.Injective (pass block globalId j) := by
  intro regs regs' h
  apply working_injective
  apply rounds_injective (schedule (Function.update (Function.update block 12 globalId) 10 j.toUInt32)) 80
  rw [← pass_eq_rounds, ← pass_eq_rounds, h]

/-- A number of passes after which every permutation of the registers is back where it started. -/
def passBound : Nat := (Fintype.card (Reg → UInt32)).factorial

theorem pass_iterate_passBound (block : Fin 16 → UInt32) (globalId : UInt32) (j : UInt8) (regs : Reg → UInt32) :
    (pass block globalId j)^[passBound] regs = regs :=
  Function.isPeriodicPt_factorial_card_of_mem_periodicPts ((pass_injective block globalId j).mem_periodicPts regs)

/-! ### A work item -/

/-- How a work item leaves its loop: by `return` after `atomic_cmpxchg`, at the pass it counts, or
by the loop's test failing. -/
inductive Exit
  | found (passes : Nat)
  | loopEnd
deriving DecidableEq, Repr

/-- The loop `for(j=0; j < 256; i++)` of `shaforce` from the registers `regs`, for at most `fuel`
passes. Its increment is `i++`, so every pass has the same `j`. -/
def shaforce (block : Fin 16 → UInt32) (mask globalId : UInt32) : Nat → UInt8 → (Reg → UInt32) → Option Exit
  | 0, _, _ => none
  | fuel + 1, j, regs =>
    if j.toNat < 256 then
      let regs := pass block globalId j regs
      if regs .A &&& mask = 0 then some (.found 1)
      else (shaforce block mask globalId fuel j regs).map fun
        | .found passes => .found (passes + 1)
        | .loopEnd => .loopEnd
    else some .loopEnd

section WorkItem

variable (block : Fin 16 → UInt32) (mask globalId : UInt32)

theorem loop_test (j : UInt8) : j.toNat < 256 := UInt8.toNat_lt j

theorem shaforce_succ (fuel : Nat) (j : UInt8) (regs : Reg → UInt32) :
    shaforce block mask globalId (fuel + 1) j regs =
      if pass block globalId j regs .A &&& mask = 0 then some (.found 1)
      else (shaforce block mask globalId fuel j (pass block globalId j regs)).map fun
        | .found passes => .found (passes + 1)
        | .loopEnd => .loopEnd := by
  rw [shaforce.eq_2, if_pos (loop_test j)]

theorem shaforce_found (fuel : Nat) (j : UInt8) (regs : Reg → UInt32) (e : Exit)
    (h : shaforce block mask globalId fuel j regs = some e) :
    ∃ k, e = .found (k + 1) ∧ (pass block globalId j)^[k + 1] regs .A &&& mask = 0 := by
  induction fuel generalizing regs e with
  | zero => cases h
  | succ fuel ih =>
    rw [shaforce_succ] at h
    split at h
    · rename_i hpass
      cases h
      exact ⟨0, rfl, by rw [Function.iterate_one]; exact hpass⟩
    · obtain ⟨e', he', rfl⟩ := Option.map_eq_some_iff.mp h
      obtain ⟨k, rfl, hk⟩ := ih _ e' he'
      exact ⟨k + 1, rfl, by rwa [Function.iterate_succ_apply]⟩

theorem shaforce_of_iterate (j : UInt8) (k : Nat) (regs : Reg → UInt32)
    (h : (pass block globalId j)^[k + 1] regs .A &&& mask = 0) :
    ∃ k' ≤ k, shaforce block mask globalId (k + 1) j regs = some (.found (k' + 1)) := by
  induction k generalizing regs with
  | zero =>
    rw [Function.iterate_one] at h
    exact ⟨0, le_rfl, by rw [shaforce_succ, if_pos h]⟩
  | succ k ih =>
    by_cases hpass : pass block globalId j regs .A &&& mask = 0
    · exact ⟨0, Nat.zero_le _, by rw [shaforce_succ, if_pos hpass]⟩
    · rw [Function.iterate_succ_apply] at h
      obtain ⟨k', hk', hrun⟩ := ih _ h
      refine ⟨k' + 1, by omega, ?_⟩
      rw [shaforce_succ, if_neg hpass, hrun]
      rfl

/-- From registers whose `A` passes the mask, a work item leaves its loop within `passBound` passes:
they come back to where it started. -/
theorem shaforce_terminates (j : UInt8) (regs : Reg → UInt32) (h : regs .A &&& mask = 0) :
    ∃ k, shaforce block mask globalId passBound j regs = some (.found (k + 1)) := by
  obtain ⟨n, hn⟩ := Nat.exists_eq_succ_of_ne_zero (Nat.factorial_ne_zero (Fintype.card (Reg → UInt32)))
  have hback := pass_iterate_passBound block globalId j regs
  rw [passBound, hn] at hback ⊢
  obtain ⟨k, -, hk⟩ := shaforce_of_iterate block mask globalId j n regs (by rw [hback]; exact h)
  exact ⟨k, hk⟩

end WorkItem

/-! ### A launch -/

/-- A launch of the work items in `order` from `*result`, each run to its end, with at most `fuel`
passes, before the next starts: `atomic_cmpxchg(result, 0, get_global_id(0)+1)` sets `*result` for
the first that finds and leaves it for the others. `none` when a work item has not left its loop
within `fuel` passes. -/
def launch (block : Fin 16 → UInt32) (mask : UInt32) (ctx : HashValue) (fuel : Nat) (order : List Nat)
    (result : UInt32) : Option UInt32 :=
  order.foldlM (fun result g =>
    (shaforce block mask g.toUInt32 fuel 0 (kernelArgs ctx)).map fun
      | .found _ => if result = 0 then g.toUInt32 + 1 else result
      | .loopEnd => result) result

section Launch

variable (block : Fin 16 → UInt32) (mask : UInt32) (ctx : HashValue) (fuel : Nat)

theorem launch_cons (g : Nat) (order : List Nat) (result : UInt32) :
    launch block mask ctx fuel (g :: order) result =
      ((shaforce block mask g.toUInt32 fuel 0 (kernelArgs ctx)).map fun
        | .found _ => if result = 0 then g.toUInt32 + 1 else result
        | .loopEnd => result).bind (launch block mask ctx fuel order) := by
  rw [launch, List.foldlM_cons]
  rfl

theorem launch_cons_eq_some (g : Nat) (order : List Nat) (result r : UInt32)
    (h : launch block mask ctx fuel (g :: order) result = some r) :
    ∃ e, shaforce block mask g.toUInt32 fuel 0 (kernelArgs ctx) = some e ∧
      launch block mask ctx fuel order (match e with
        | .found _ => if result = 0 then g.toUInt32 + 1 else result
        | .loopEnd => result) = some r := by
  rw [launch_cons] at h
  obtain ⟨result', hg, hrest⟩ := Option.bind_eq_some_iff.mp h
  obtain ⟨e, he, rfl⟩ := Option.map_eq_some_iff.mp hg
  exact ⟨e, he, hrest⟩

theorem launch_found (order : List Nat) (result r : UInt32) (h : launch block mask ctx fuel order result = some r) :
    ∀ g ∈ order, ∃ k, (pass block g.toUInt32 0)^[k + 1] (kernelArgs ctx) .A &&& mask = 0 := by
  induction order generalizing result with
  | nil => exact fun g hg => absurd hg List.not_mem_nil
  | cons g order ih =>
    obtain ⟨e, he, hrest⟩ := launch_cons_eq_some block mask ctx fuel g order result r h
    obtain ⟨k, -, hk⟩ := shaforce_found block mask g.toUInt32 fuel 0 _ e he
    intro g' hg'
    rcases List.mem_cons.mp hg' with rfl | hg'
    · exact ⟨k, hk⟩
    · exact ih _ hrest g' hg'

theorem launch_of_ne_zero (order : List Nat) (result r : UInt32) (hne : result ≠ 0)
    (h : launch block mask ctx fuel order result = some r) : r = result := by
  induction order with
  | nil => exact (Option.some.inj h).symm
  | cons g order ih =>
    obtain ⟨e, -, hrest⟩ := launch_cons_eq_some block mask ctx fuel g order result r h
    cases e with
    | found k => exact ih (by simpa only [if_neg hne] using hrest)
    | loopEnd => exact ih hrest

theorem id_add_one_ne_zero (g : Nat) (hg : g < 2 ^ 32 - 1) : g.toUInt32 + 1 ≠ 0 := by
  intro h0
  have := congrArg UInt32.toNat h0
  rw [UInt32.toNat_add, UInt32.toNat_one, Nat.toUInt32_eq, UInt32.toNat_ofNat', UInt32.toNat_zero] at this
  omega

theorem launch_cons_zero (g : Nat) (hg : g < 2 ^ 32 - 1) (order : List Nat) (r : UInt32)
    (h : launch block mask ctx fuel (g :: order) 0 = some r) : r = g.toUInt32 + 1 := by
  have hid := id_add_one_ne_zero g hg
  obtain ⟨e, he, hrest⟩ := launch_cons_eq_some block mask ctx fuel g order 0 r h
  obtain ⟨k, rfl, -⟩ := shaforce_found block mask g.toUInt32 fuel 0 _ e he
  exact launch_of_ne_zero block mask ctx fuel order _ r hid hrest

/-- A launch from a midstate whose `h0` passes the mask ends, whatever the order. -/
theorem launch_terminates (order : List Nat) (result : UInt32) (h : ctx.h0 &&& mask = 0) :
    ∃ r, launch block mask ctx passBound order result = some r := by
  induction order generalizing result with
  | nil => exact ⟨result, rfl⟩
  | cons g order ih =>
    obtain ⟨k, hk⟩ := shaforce_terminates block mask g.toUInt32 0 (kernelArgs ctx) h
    rw [launch_cons, hk]
    exact ih _

end Launch

/-! ### The host -/

/-- The loop `while(1)` of `force_hash`: before each launch the host writes `idx` into word 11 of
the block, and once `*result` is set it stores `result-1` and `idx` into words 12 and 11 of the
buffer, in its own byte order, and sets `found`. -/
def forceHashLoop (launch : (Fin 16 → UInt32) → UInt32 → Option UInt32) :
    Nat → (Fin 16 → UInt32) → UInt32 → UInt32 → HashArgs → Option HashArgs
  | 0, _, _, _, _ => none
  | fuel + 1, words, idx, result, args =>
    let words := Function.update words 11 idx
    match launch words result with
    | none => none
    | some result =>
      if result ≠ 0 then
        let msg := storeLE32 args.msg (blockPtr + 4 * 12) (result - 1)
        some ⟨storeLE32 msg (blockPtr + 4 * 11) idx, true⟩
      else forceHashLoop launch fuel words (idx + 1) result args

/-- `force_hash(args)`: the words of the last block byte-swapped, `h0, ..., h4` after
`SHA1_Update` on the bytes before it, and `*result = 0`. -/
def forceHash (launch : (Fin 16 → UInt32) → HashValue → UInt32 → Option UInt32)
    (midstate : List UInt8 → HashValue) (fuel : Nat) (args : HashArgs) : Option HashArgs :=
  let ctx := midstate (args.msg.toList.take blockPtr)
  let words : Fin 16 → UInt32 := fun i => bswap32 (loadLE32 args.msg (blockPtr + 4 * i))
  forceHashLoop (fun words result => launch words ctx result) fuel words 0 0 args

theorem forceHash_launch (mask : UInt32) (midstate : List UInt8 → HashValue) (fuel passes g : Nat)
    (hg : g < 2 ^ 32 - 1) (order : List Nat) (args args' : HashArgs)
    (h : forceHash (fun words ctx result => launch words mask ctx passes (g :: order) result) midstate fuel args =
      some args') :
    args' = ⟨storeLE32 (storeLE32 args.msg (blockPtr + 4 * 12) g.toUInt32) (blockPtr + 4 * 11) 0, true⟩ ∧
      ∀ g' ∈ g :: order, ∃ k,
        (pass (Function.update (fun i => bswap32 (loadLE32 args.msg (blockPtr + 4 * i))) 11 0) g'.toUInt32 0)^[k + 1]
          (kernelArgs (midstate (args.msg.toList.take blockPtr))) .A &&& mask = 0 := by
  cases fuel with
  | zero => cases h
  | succ fuel =>
    simp only [forceHash, forceHashLoop] at h
    split at h
    · cases h
    · rename_i r hlaunch
      have hr := launch_cons_zero _ _ _ _ g hg order r hlaunch
      rw [if_pos (hr ▸ id_add_one_ne_zero g hg)] at h
      refine ⟨?_, launch_found _ _ _ _ _ 0 r hlaunch⟩
      rw [← Option.some.inj h, hr, UInt32.add_sub_cancel]

theorem forceHash_of_launch (mask : UInt32) (midstate : List UInt8 → HashValue) (passes g : Nat)
    (hg : g < 2 ^ 32 - 1) (order : List Nat) (args : HashArgs) (r : UInt32)
    (hr : launch (Function.update (fun i => bswap32 (loadLE32 args.msg (blockPtr + 4 * i))) 11 0) mask
      (midstate (args.msg.toList.take blockPtr)) passes (g :: order) 0 = some r) :
    ∃ args', forceHash (fun words ctx result => launch words mask ctx passes (g :: order) result) midstate 1 args =
      some args' := by
  have hne : r ≠ 0 := (launch_cons_zero _ _ _ _ g hg order r hr) ▸ id_add_one_ne_zero g hg
  simp only [forceHash, forceHashLoop, hr, if_pos hne]
  exact ⟨_, rfl⟩

/-- From a midstate whose `h0` passes the mask, `force_hash` returns after its first launch. -/
theorem forceHash_terminates (mask : UInt32) (midstate : List UInt8 → HashValue) (g : Nat) (hg : g < 2 ^ 32 - 1)
    (order : List Nat) (args : HashArgs) (h : (midstate (args.msg.toList.take blockPtr)).h0 &&& mask = 0) :
    ∃ args', forceHash (fun words ctx result => launch words mask ctx passBound (g :: order) result) midstate 1 args =
      some args' := by
  obtain ⟨r, hr⟩ := launch_terminates (Function.update (fun i => bswap32 (loadLE32 args.msg (blockPtr + 4 * i))) 11 0)
    mask _ (g :: order) 0 h
  exact forceHash_of_launch mask midstate passBound g hg order args r hr

theorem hash_writeBack_h0 (msg : Vector UInt8 bufferLength) (hpadding : msg.toList.drop commitLength = padding commitLength)
    (hword : blockAt msg.toList blockPtr 10 = 0) (g : UInt32) :
    (Sha1.hash ((storeLE32 (storeLE32 msg (blockPtr + 4 * 12) g) (blockPtr + 4 * 11) 0).toList.take commitLength)).h0 =
      (chain initial (msg.toList.take blockPtr)).h0 +
        pass (Function.update (blockAt msg.toList blockPtr) 11 0) (bswap32 g) 0
          (kernelArgs (chain initial (msg.toList.take blockPtr))) .A := by
  have hptr : blockPtr = 192 := rfl
  have hcommit : commitLength = 247 := rfl
  have hpadding' : (storeLE32 (storeLE32 msg (blockPtr + 4 * 12) g) (blockPtr + 4 * 11) 0).toList.drop commitLength =
      padding commitLength := by
    rw [drop_storeLE32 _ _ _ (by omega), drop_storeLE32 _ _ _ (by omega), hpadding]
  have h12 : blockAt (storeLE32 msg (blockPtr + 4 * 12) g).toList blockPtr =
      Function.update (blockAt msg.toList blockPtr) 12 (bswap32 g) :=
    blockAt_storeLE32 msg blockPtr 12 g (by decide)
  have h11 : blockAt (storeLE32 (storeLE32 msg (blockPtr + 4 * 12) g) (blockPtr + 4 * 11) 0).toList blockPtr =
      Function.update (blockAt (storeLE32 msg (blockPtr + 4 * 12) g).toList blockPtr) 11 (bswap32 0) :=
    blockAt_storeLE32 _ blockPtr 11 0 (by decide)
  have hblock : Function.update (Function.update (blockAt msg.toList blockPtr) 12 (bswap32 g)) 11 (bswap32 0) =
      Function.update (Function.update (Function.update (blockAt msg.toList blockPtr) 11 0) 12 (bswap32 g)) 10
        (0 : UInt8).toUInt32 := by
    rw [show bswap32 0 = 0 by decide, Function.update_comm (by decide : (12 : Fin 16) ≠ 11), eq_comm,
      Function.update_eq_self_iff, Function.update_of_ne (by decide), Function.update_of_ne (by decide), hword]
    rfl
  rw [hash_commit _ hpadding', take_storeLE32 _ _ _ (by omega), take_storeLE32 _ _ _ (by omega), h11, h12, hblock,
    compress_h0]

/-- With the work items run in the order of their ids, from a midstate whose `h0` passes the mask,
`force_hash` returns with `found` set and the ids `0` and `0` written back, whatever the digest of
the commit they give. -/
theorem forceHash_misses_mask (mask : UInt32) (msg : Vector UInt8 bufferLength)
    (hmid : (chain initial (msg.toList.take blockPtr)).h0 &&& mask = 0)
    (hmiss : (Sha1.hash ((storeLE32 (storeLE32 msg (blockPtr + 4 * 12) 0) (blockPtr + 4 * 11) 0).toList.take
      commitLength)).h0 &&& mask ≠ 0) :
    ∃ args', forceHash (fun words ctx result => launch words mask ctx passBound (List.range concurrency) result)
        (chain initial) 1 ⟨msg, false⟩ = some args' ∧ args'.found = true ∧
      (∀ j (hj : j < bufferLength), (j < 236 ∨ 243 < j) → args'.msg[j] = msg[j]) ∧
      (Sha1.hash (args'.msg.toList.take commitLength)).h0 &&& mask ≠ 0 := by
  have hrange : List.range concurrency = 0 :: (List.range 383).map Nat.succ := List.range_succ_eq_map
  rw [hrange]
  obtain ⟨args', hrun⟩ := forceHash_terminates mask (chain initial) 0 (by decide) _ ⟨msg, false⟩ hmid
  obtain ⟨rfl, -⟩ := forceHash_launch mask (chain initial) 1 passBound 0 (by decide) _ _ _ hrun
  exact ⟨_, hrun, rfl, fun j hj hout => getElem_writeBack msg _ _ j hj hout, hmiss⟩

/-- The buffer of an all-zero commit, as `pad_message(msg, COMMIT_LENGTH, BUFFER_LENGTH)` leaves it. -/
def zeroCommit : Vector UInt8 bufferLength :=
  (padMessage (Vector.replicate bufferLength 0) (UInt32.ofNat commitLength) (UInt32.ofNat bufferLength)).2

theorem forceHash_misses_mask_zeroCommit :
    (padMessage zeroCommit (UInt32.ofNat commitLength) (UInt32.ofNat bufferLength)).2 = zeroCommit ∧
    (chain initial (zeroCommit.toList.take blockPtr)).h0 &&& 1 = 0 ∧
    (Sha1.hash ((storeLE32 (storeLE32 zeroCommit (blockPtr + 4 * 12) 0) (blockPtr + 4 * 11) 0).toList.take
      commitLength)).h0 &&& 1 ≠ 0 ∧
    ∃ args', forceHash (fun words ctx result => launch words 1 ctx passBound (List.range concurrency) result)
        (chain initial) 1 ⟨zeroCommit, false⟩ = some args' ∧ args'.found = true ∧
      (∀ j (hj : j < bufferLength), (j < 236 ∨ 243 < j) → args'.msg[j] = zeroCommit[j]) ∧
      (Sha1.hash (args'.msg.toList.take commitLength)).h0 &&& 1 ≠ 0 := by
  have hpad : (padMessage zeroCommit (UInt32.ofNat commitLength) (UInt32.ofNat bufferLength)).2 = zeroCommit :=
    padMessage_padMessage _ _ _ (by decide)
  have hctx : chain initial (zeroCommit.toList.take blockPtr) =
      ⟨2121348546, 1984221849, 4044895225, 1066830704, 2001750905⟩ := by
    set_option maxRecDepth 100000 in decide
  have hword : blockAt zeroCommit.toList blockPtr 10 = 0 := by
    set_option maxRecDepth 4000 in decide
  have hmid : (chain initial (zeroCommit.toList.take blockPtr)).h0 &&& 1 = 0 := by
    rw [hctx]
    decide
  have hmiss : (Sha1.hash ((storeLE32 (storeLE32 zeroCommit (blockPtr + 4 * 12) 0) (blockPtr + 4 * 11) 0).toList.take
      commitLength)).h0 &&& 1 ≠ 0 := by
    rw [hash_writeBack_h0 zeroCommit (padMessage_commit zeroCommit hpad) hword 0, hctx]
    set_option maxRecDepth 100000 in decide
  exact ⟨hpad, hmid, hmiss, forceHash_misses_mask 1 zeroCommit hmid hmiss⟩

end Ctf3.Level1.OpenCL
