import Mathlib
import Ctf3.Lib.ByteOrder
import Ctf3.Lib.Sha1
import Ctf3.Level1.Common
import Ctf3.Level1.Kernel

/-!
# The CUDA miner

`force_hash` in `cuda.c` hashes the first three blocks of the buffer on the host, byte-swaps the
last block into big-endian words, and launches `shaforce` with a counter `i` until a thread
reports a nonce or the stop flag is set. A thread iteration tries the block with `i` in word 11
and its global id, with the loop index in bits 24 to 27, in word 12; a passing iteration stores
its id plus one in `*d_result` with `atomicMax`. The host writes the nonce back into bytes 236 to
243 of the buffer.

`forceHash_found_commit` follows one value through all of it: the midstate is the chaining value
of the unchanged first 192 bytes, the words written back are the words the kernel tried, and
`regs_computeSHA1BlockRounds` turns the kernel's test into the first 36 bits of the real SHA-1.
What a launch leaves in `*d_result` is a parameter with the property `LaunchResult`; the model of
the grid, `forceKernel`, has it (`forceKernel_launchResult`).
-/

namespace Ctf3.Level1

open Sha1 ByteOrder

/-! ### The launch -/

def smCount : Nat := 8

def blocksPerSm : Nat := 8

def threadsPerBlock : Nat := 2048 / blocksPerSm

def blocksPerGrid : Nat := smCount * blocksPerSm

/-- One thread of `shaforce`: the loop `for(i = 0; i < 16; i++)` from `i` with `n` iterations left,
the thread's `global_id` and the value `*result` holds. A passing iteration does
`atomicMax(result, global_id + 1)` and breaks. -/
def shaforce (block : Fin 16 → UInt32) (ctx : HashValue) (idx : UInt32) :
    Nat → UInt32 → UInt32 → UInt32 → UInt32
  | 0, _, _, result => result
  | n + 1, i, globalId, result =>
    let globalId := globalId ||| (i <<< 24)
    let res := computeSHA1Block block globalId idx ctx
    if res >>> 28 < 1 then max result (globalId + 1)
    else shaforce block ctx idx n (i + 1) (globalId &&& 0x00ffffff) result

/-- `force_kernel(d_result, idx)`: every thread of the grid runs `shaforce` against `*d_result`.
A thread reads only constant memory and writes only through `atomicMax`, so the threads are run
one after another; `forceKernel_perm` shows the order does not matter. -/
def forceKernel (block : Fin 16 → UInt32) (ctx : HashValue) (result idx : UInt32) : UInt32 :=
  (List.range (blocksPerGrid * threadsPerBlock)).foldl
    (fun r t => shaforce block ctx idx 16 0 t.toUInt32 r) result

/-- The global id of thread `t` at loop index `j`. -/
def threadGlobalId (t j : Nat) : UInt32 := t.toUInt32 ||| (j.toUInt32 <<< 24)

/-- What the host relies on of a launch from `*d_result = 0`: afterwards `*d_result` is zero, or one
more than the global id of a thread iteration whose `computeSHA1Block` passed `(res >> 28) < 1`. -/
def LaunchResult (block : Fin 16 → UInt32) (ctx : HashValue) (idx result : UInt32) : Prop :=
  result = 0 ∨ ∃ t j, t < blocksPerGrid * threadsPerBlock ∧ j < 16 ∧
    computeSHA1Block block (threadGlobalId t j) idx ctx >>> 28 < 1 ∧ result = threadGlobalId t j + 1

theorem toNat_max (a b : UInt32) : (max a b).toNat = max a.toNat b.toNat := by
  simp only [max, UInt32.le_iff_toNat_le]
  split <;> rfl

theorem max_zero (a : UInt32) : max a 0 = a := by
  apply UInt32.toNat_inj.mp
  rw [toNat_max, UInt32.toNat_zero]
  omega

theorem max_eq_or (a b : UInt32) : max a b = a ∨ max a b = b := by
  simp only [max]
  split
  · exact Or.inr rfl
  · exact Or.inl rfl

theorem max_right_comm (a b c : UInt32) : max (max a b) c = max (max a c) b := by
  apply UInt32.toNat_inj.mp
  simp only [toNat_max]
  omega

theorem or_shiftLeft_and (g i : UInt32) (hg : g.toNat < 2 ^ 24) : (g ||| (i <<< 24)) &&& 0x00ffffff = g := by
  apply UInt32.toNat_inj.mp
  rw [UInt32.toNat_and, UInt32.toNat_or, UInt32.toNat_shiftLeft]
  have hmask : (0x00ffffff : UInt32).toNat = 2 ^ 24 - 1 := rfl
  rw [hmask, Nat.and_two_pow_sub_one_eq_mod, Nat.or_mod_two_pow]
  simp only [UInt32.reduceToNat, Nat.reduceMod]
  rw [Nat.mod_eq_of_lt hg, Nat.shiftLeft_eq]
  have hhigh : i.toNat * 2 ^ 24 % 2 ^ 32 % 2 ^ 24 = 0 := by
    rw [Nat.mod_mod_of_dvd _ (by norm_num)]
    exact Nat.mul_mod_left _ _
  rw [hhigh, Nat.or_zero]

theorem res_test (a b : UInt32) (h : ((a.toUInt64 <<< 32) ||| b.toUInt64) >>> 28 < 1) : a = 0 ∧ b.toNat < 2 ^ 28 := by
  have ha := a.toNat_lt
  have hb := b.toNat_lt
  have hval : ((a.toUInt64 <<< 32) ||| b.toUInt64).toNat = a.toNat * 2 ^ 32 + b.toNat := by
    rw [UInt64.toNat_or, UInt64.toNat_shiftLeft]
    simp only [UInt32.toNat_toUInt64, UInt64.reduceToNat, Nat.reduceMod]
    rw [Nat.mod_eq_of_lt (by rw [Nat.shiftLeft_eq]; omega), ← Nat.shiftLeft_add_eq_or_of_lt hb, Nat.shiftLeft_eq]
  have hlt := UInt64.lt_iff_toNat_lt.mp h
  rw [UInt64.toNat_shiftRight, hval] at hlt
  simp only [UInt64.reduceToNat, Nat.reduceMod, Nat.shiftRight_eq_div_pow] at hlt
  have hsmall : a.toNat * 2 ^ 32 + b.toNat < 2 ^ 28 := by
    rw [Nat.div_lt_iff_lt_mul (by norm_num)] at hlt
    omega
  exact ⟨UInt32.toNat_inj.mp (by simp only [UInt32.toNat_zero]; omega), by omega⟩

theorem shaforce_spec (block : Fin 16 → UInt32) (ctx : HashValue) (idx : UInt32) (n : Nat) :
    ∀ (i g : UInt32), g.toNat < 2 ^ 24 → i.toNat + n ≤ 16 → ∃ c, (c = 0 ∨ ∃ j, i.toNat ≤ j ∧ j < 16 ∧
      computeSHA1Block block (g ||| (j.toUInt32 <<< 24)) idx ctx >>> 28 < 1 ∧ c = (g ||| (j.toUInt32 <<< 24)) + 1) ∧
      ∀ result, shaforce block ctx idx n i g result = max result c := by
  induction n with
  | zero =>
    intro i g _ _
    exact ⟨0, Or.inl rfl, fun result => (max_zero result).symm⟩
  | succ n ih =>
    intro i g hg hi
    have hj : i.toNat.toUInt32 = i := UInt32.ofNat_toNat
    by_cases hpass : computeSHA1Block block (g ||| (i <<< 24)) idx ctx >>> 28 < 1
    · refine ⟨(g ||| (i <<< 24)) + 1, Or.inr ⟨i.toNat, le_rfl, by omega, by rw [hj]; exact hpass, by rw [hj]⟩, ?_⟩
      intro result
      simp only [shaforce, hpass, if_true]
    · have hnext : (i + 1).toNat = i.toNat + 1 := by
        rw [UInt32.toNat_add, UInt32.toNat_one, Nat.mod_eq_of_lt (by omega)]
      obtain ⟨c, hc, hrun⟩ := ih (i + 1) g hg (by omega)
      refine ⟨c, ?_, ?_⟩
      · rcases hc with hc | ⟨j, hij, hj16, hjpass, hjc⟩
        · exact Or.inl hc
        · exact Or.inr ⟨j, by omega, hj16, hjpass, hjc⟩
      · intro result
        simp only [shaforce, hpass, if_false, or_shiftLeft_and g i hg, hrun]

theorem threadId_lt (t : Nat) (ht : t < blocksPerGrid * threadsPerBlock) : t.toUInt32.toNat < 2 ^ 24 := by
  have hgrid : blocksPerGrid * threadsPerBlock = 16384 := rfl
  rw [Nat.toUInt32_eq, UInt32.toNat_ofNat', Nat.mod_eq_of_lt (by omega)]
  omega

/-- The grid in any order of its threads leaves the same `*d_result`. -/
theorem forceKernel_perm (block : Fin 16 → UInt32) (ctx : HashValue) (result idx : UInt32) (order : List Nat)
    (horder : order.Perm (List.range (blocksPerGrid * threadsPerBlock))) :
    order.foldl (fun r t => shaforce block ctx idx 16 0 t.toUInt32 r) result = forceKernel block ctx result idx := by
  apply horder.foldl_eq'
  intro x hx y hy z
  have hlt : ∀ t ∈ order, t < blocksPerGrid * threadsPerBlock := fun t ht => List.mem_range.mp (horder.subset ht)
  obtain ⟨cx, -, hcx⟩ := shaforce_spec block ctx idx 16 0 x.toUInt32 (threadId_lt x (hlt x hx)) (by simp)
  obtain ⟨cy, -, hcy⟩ := shaforce_spec block ctx idx 16 0 y.toUInt32 (threadId_lt y (hlt y hy)) (by simp)
  simp only [hcx, hcy]
  exact max_right_comm z cx cy

theorem forceKernel_perm_reverse :
    (List.range (blocksPerGrid * threadsPerBlock)).reverse.Perm (List.range (blocksPerGrid * threadsPerBlock)) ∧
      (List.range (blocksPerGrid * threadsPerBlock)).reverse.foldl
          (fun r t => shaforce (fun _ => 0) ⟨0, 0, 0, 0, 0⟩ 0 16 0 t.toUInt32 r) 0 =
        forceKernel (fun _ => 0) ⟨0, 0, 0, 0, 0⟩ 0 0 :=
  ⟨List.reverse_perm _, forceKernel_perm _ _ 0 0 _ (List.reverse_perm _)⟩

theorem forceKernel_launchResult (block : Fin 16 → UInt32) (ctx : HashValue) (idx : UInt32) :
    LaunchResult block ctx idx (forceKernel block ctx 0 idx) := by
  have hfold : ∀ (l : List Nat) (r : UInt32), (∀ t ∈ l, t < blocksPerGrid * threadsPerBlock) →
      LaunchResult block ctx idx r →
      LaunchResult block ctx idx (l.foldl (fun r t => shaforce block ctx idx 16 0 t.toUInt32 r) r) := by
    intro l
    induction l with
    | nil => intro r _ hr; exact hr
    | cons t l ih =>
      intro r hl hr
      rw [List.foldl_cons]
      apply ih _ (fun t' ht' => hl t' (List.mem_cons_of_mem t ht'))
      have ht := hl t List.mem_cons_self
      obtain ⟨c, hc, hrun⟩ := shaforce_spec block ctx idx 16 0 t.toUInt32 (threadId_lt t ht) (by simp)
      rw [hrun]
      rcases max_eq_or r c with hmax | hmax
      · rw [hmax]; exact hr
      · rw [hmax]
        rcases hc with hc | ⟨j, -, hj16, hjpass, hjc⟩
        · exact Or.inl hc
        · exact Or.inr ⟨t, j, ht, hj16, hjpass, hjc⟩
  exact hfold _ 0 (fun t ht => List.mem_range.mp ht) (Or.inl rfl)

/-! ### The host -/

/-- The host's `hash_args`: the buffer `msg` and the flag `found`. -/
structure HashArgs where
  msg : Vector UInt8 bufferLength
  found : Bool
deriving DecidableEq

/-- `block_ptr`, as a byte offset into the buffer. -/
def blockPtr : Nat := bufferLength - blockLength

/-- The loop `while(!(*args->stop))` of `force_hash` from launch counter `i` with `*d_result`
holding `dResult`; `stop n` is the flag as its `n`-th check reads it, and `fuel` bounds the number
of checks. `launch` is a launch of `force_kernel` followed by the copy of `*d_result` to the host. -/
def forceHashLoop (launch : (Fin 16 → UInt32) → HashValue → UInt32 → UInt32 → UInt32)
    (words : Fin 16 → UInt32) (hCtx : HashValue) (stop : Nat → Bool) :
    Nat → Nat → UInt32 → UInt32 → HashArgs → Option HashArgs
  | 0, _, _, _, _ => none
  | fuel + 1, n, i, dResult, args =>
    if stop n then some args
    else
      let result := launch words hCtx dResult i
      if result ≠ 0 then
        let msg := storeLE32 args.msg (blockPtr + 4 * 12) (bswap32 (result - 1))
        some ⟨storeLE32 msg (blockPtr + 4 * 11) (bswap32 i), true⟩
      else forceHashLoop launch words hCtx stop fuel (n + 1) (i + 1) result args

/-- `force_hash(args)`. `midstate` is what `SHA1_Init` and `SHA1_Update` leave in `h0, ..., h4`. -/
def forceHash (launch : (Fin 16 → UInt32) → HashValue → UInt32 → UInt32 → UInt32)
    (midstate : List UInt8 → HashValue) (stop : Nat → Bool) (fuel : Nat) (args : HashArgs) : Option HashArgs :=
  let hCtx := midstate (args.msg.toList.take blockPtr)
  let words : Fin 16 → UInt32 := fun i => bswap32 (loadLE32 args.msg (blockPtr + 4 * i))
  -- cudaMemset(d_result, 0, ...); copy_constants(words, &difficulty, &h_ctx)
  forceHashLoop launch words hCtx stop fuel 0 0 0 args

/-- A run of the loop returns the arguments as they were, or with the nonce of a passing thread
iteration written back and `found` set. -/
theorem forceHashLoop_outcome (launch : (Fin 16 → UInt32) → HashValue → UInt32 → UInt32 → UInt32)
    (words : Fin 16 → UInt32) (hCtx : HashValue) (stop : Nat → Bool)
    (hlaunch : ∀ idx, LaunchResult words hCtx idx (launch words hCtx 0 idx)) (fuel : Nat) :
    ∀ n i args out, forceHashLoop launch words hCtx stop fuel n i 0 args = some out →
      out = args ∨ ∃ idx gid, computeSHA1Block words gid idx hCtx >>> 28 < 1 ∧
        out = ⟨storeLE32 (storeLE32 args.msg (blockPtr + 4 * 12) (bswap32 gid)) (blockPtr + 4 * 11) (bswap32 idx),
          true⟩ := by
  induction fuel with
  | zero => intro n i args out hrun; simp [forceHashLoop] at hrun
  | succ fuel ih =>
    intro n i args out hrun
    simp only [forceHashLoop] at hrun
    split at hrun
    · exact Or.inl (Option.some.inj hrun).symm
    · split at hrun
      · rename_i hfound
        rcases hlaunch i with hzero | ⟨t, j, -, -, hpass, hresult⟩
        · exact absurd hzero hfound
        · refine Or.inr ⟨i, threadGlobalId t j, hpass, ?_⟩
          rw [← Option.some.inj hrun, hresult, UInt32.add_sub_cancel]
      · rename_i hzero
        rw [not_not] at hzero
        rw [hzero] at hrun
        exact ih (n + 1) (i + 1) args out hrun

/-! ### The nonce written back -/

theorem getElem_writeBack (msg : Vector UInt8 bufferLength) (gid idx : UInt32) (j : Nat) (hj : j < bufferLength)
    (hout : j < 236 ∨ 243 < j) :
    (storeLE32 (storeLE32 msg (blockPtr + 4 * 12) gid) (blockPtr + 4 * 11) idx)[j] = msg[j] := by
  have hptr : blockPtr = 192 := rfl
  rw [getElem_storeLE32_of_ne _ _ _ _ _ (by omega), getElem_storeLE32_of_ne _ _ _ _ _ (by omega)]

theorem blockAt_writeBack (msg : Vector UInt8 bufferLength) (gid idx : UInt32) :
    blockAt (storeLE32 (storeLE32 msg (blockPtr + 4 * 12) (bswap32 gid)) (blockPtr + 4 * 11) (bswap32 idx)).toList
        blockPtr =
      Function.update (Function.update (blockAt msg.toList blockPtr) 11 idx) 12 gid := by
  have h12 : blockAt (storeLE32 msg (blockPtr + 4 * 12) (bswap32 gid)).toList blockPtr =
      Function.update (blockAt msg.toList blockPtr) 12 (bswap32 (bswap32 gid)) :=
    blockAt_storeLE32 msg blockPtr 12 (bswap32 gid) (by decide)
  have h11 : blockAt (storeLE32 (storeLE32 msg (blockPtr + 4 * 12) (bswap32 gid)) (blockPtr + 4 * 11)
      (bswap32 idx)).toList blockPtr =
      Function.update (blockAt (storeLE32 msg (blockPtr + 4 * 12) (bswap32 gid)).toList blockPtr) 11
        (bswap32 (bswap32 idx)) :=
    blockAt_storeLE32 _ blockPtr 11 (bswap32 idx) (by decide)
  rw [h11, h12, bswap32_bswap32, bswap32_bswap32, Function.update_comm (by decide)]

/-- With the padding of a 247-byte message in place, the digest of the commit is the compression of
the last block against the chaining value of the first three. -/
theorem hash_commit (buf : Vector UInt8 bufferLength)
    (hpadding : buf.toList.drop commitLength = padding commitLength) :
    Sha1.hash (buf.toList.take commitLength) = compress (chain initial (buf.toList.take blockPtr)) (blockAt buf.toList blockPtr) := by
  have hlen : (buf.toList.take commitLength).length = commitLength := by
    rw [List.length_take, Vector.length_toList]
    rfl
  have hpad : pad (buf.toList.take commitLength) = buf.toList := by
    rw [pad, hlen, ← hpadding, List.take_append_drop]
  rw [Sha1.hash, hpad]
  exact chain_of_length initial buf.toList 3 buf.length_toList

theorem forceHash_found_commit (launch : (Fin 16 → UInt32) → HashValue → UInt32 → UInt32 → UInt32)
    (midstate : List UInt8 → HashValue) (stop : Nat → Bool) (fuel : Nat) (msg : Vector UInt8 bufferLength)
    (out : HashArgs) (hlaunch : ∀ block ctx idx, LaunchResult block ctx idx (launch block ctx 0 idx))
    (hmidstate : ∀ bytes : List UInt8, bytes.length = blockPtr → midstate bytes = chain initial bytes)
    (hpad : (padMessage msg (UInt32.ofNat commitLength) (UInt32.ofNat bufferLength)).2 = msg)
    (hrun : forceHash launch midstate stop fuel ⟨msg, false⟩ = some out) :
    out.found = false ∨ ((∀ j (hj : j < bufferLength), (j < 236 ∨ 243 < j) → out.msg[j] = msg[j]) ∧
      (Sha1.hash (out.msg.toList.take commitLength)).toNat < 2 ^ 124) := by
  let words : Fin 16 → UInt32 := fun i => bswap32 (loadLE32 msg (blockPtr + 4 * i))
  have hwords : words = blockAt msg.toList blockPtr := funext (bswap32_loadLE32 msg blockPtr)
  obtain hout | ⟨idx, gid, hpass, hout⟩ := forceHashLoop_outcome launch words (midstate (msg.toList.take blockPtr))
    stop (fun idx => hlaunch _ _ idx) fuel 0 0 ⟨msg, false⟩ out hrun
  · exact Or.inl (by rw [hout])
  · right
    subst hout
    refine ⟨fun j hj hne => getElem_writeBack msg _ _ j hj hne, ?_⟩
    have hptr : blockPtr = 192 := rfl
    have hcommit : commitLength = 247 := rfl
    have hpadding : (storeLE32 (storeLE32 msg (blockPtr + 4 * 12) (bswap32 gid)) (blockPtr + 4 * 11)
        (bswap32 idx)).toList.drop commitLength = padding commitLength := by
      rw [drop_storeLE32 _ _ _ (by omega), drop_storeLE32 _ _ _ (by omega), padMessage_commit msg hpad]
    have hlen : (msg.toList.take blockPtr).length = blockPtr := by
      rw [List.length_take, Vector.length_toList]
      rfl
    rw [hash_commit _ hpadding, take_storeLE32 _ _ _ (by omega), take_storeLE32 _ _ _ (by omega),
      blockAt_writeBack, ← hmidstate _ hlen, ← hwords]
    rw [computeSHA1Block] at hpass
    simp only [regs_computeSHA1BlockRounds] at hpass
    obtain ⟨h0, h1⟩ := res_test _ _ hpass
    exact toNat_lt_of_h0_h1 _ h0 h1

theorem forceHash_found_commit_one_launch :
    (⟨(padMessage (Vector.replicate bufferLength 0) (UInt32.ofNat commitLength) (UInt32.ofNat bufferLength)).2,
      false⟩ : HashArgs).found = false ∨
    ((∀ j (hj : j < bufferLength), (j < 236 ∨ 243 < j) →
      (padMessage (Vector.replicate bufferLength 0) (UInt32.ofNat commitLength) (UInt32.ofNat bufferLength)).2[j] =
        (padMessage (Vector.replicate bufferLength 0) (UInt32.ofNat commitLength) (UInt32.ofNat bufferLength)).2[j]) ∧
      (Sha1.hash ((padMessage (Vector.replicate bufferLength 0) (UInt32.ofNat commitLength)
        (UInt32.ofNat bufferLength)).2.toList.take commitLength)).toNat < 2 ^ 124) :=
  forceHash_found_commit (fun _ _ _ _ => 0) (chain initial) (fun n => n != 0) 2 _ _ (fun _ _ _ => Or.inl rfl)
    (fun _ _ => rfl) (padMessage_padMessage _ _ _ (by decide)) rfl

end Ctf3.Level1
