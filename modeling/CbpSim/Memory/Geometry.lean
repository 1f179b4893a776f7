/-
  Memory/Geometry.lean --- when the sets of a new cache are indexed safely.

  Source: src/lib/cache.h, `IsPow2`, `TAG` and `INDEX`; src/lib/cache.cc, the
  constructor.

  `IsPow2` holds of 0, so the constructor lets a cache of no sets pass: one whose
  size is less than the blocks of a single set take.  With one set or more the
  number of sets and the size of a block are powers of two, and the fields of an
  address that they cut out do not overlap.
-/
import CbpSim.Memory.TrueLru

set_option autoImplicit false

namespace CbpSim.Memory

/-- Addresses index the `numSets` sets of `c` safely, and the tag in a set tells the
blocks apart. -/
structure IndexingSafe (c : Cache) (numSets blocksize : Nat) : Prop where
  sets : 1 ≤ numSets
  index : ∀ addr < 2 ^ 64, c.indexOf addr < numSets
  /-- `TAG` shifts by less than the width of an address -/
  shift : c.numIndexBits + c.numOffsetBits < 64
  blocks : ∀ a < 2 ^ 64, ∀ b < 2 ^ 64,
    c.tagOf a = c.tagOf b ∧ c.indexOf a = c.indexOf b ↔ a / blocksize = b / blocksize

namespace Cache

variable {c : Cache} {u : Unspecified} {size assoc blocksize latency : Nat}

/-- What the constructor has checked of the size of a block. -/
theorem new_blocksize (h : Cache.new u size assoc blocksize latency = .ok c) :
    isPow2 blocksize = true ∧ assoc * blocksize % 2 ^ 64 ≠ 0 ∧
      c.numOffsetBits = log2 u blocksize := by
  unfold Cache.new at h
  dsimp only at h
  split at h
  · cases h
  · rename_i hblock
    split at h
    · cases h
    · rename_i hbytes
      split at h
      · cases h
      · obtain rfl := Except.ok.inj h
        exact ⟨by simpa using hblock, hbytes, rfl⟩

/-- The two powers of two of a cache with sets. -/
structure Powers (c : Cache) (numSets blocksize k b : Nat) : Prop where
  numSets : numSets = 2 ^ k
  blocksize : blocksize = 2 ^ b
  numIndexBits : c.numIndexBits = k
  numOffsetBits : c.numOffsetBits = b
  indexMask : c.indexMask = 2 ^ k - 1
  fits : k + b < 64

/-- One set or more is a power of two of them. -/
theorem new_powers (hsize : size < 2 ^ 64) (hblocksize : blocksize < 2 ^ 64)
    (hsets : 1 ≤ size / (assoc * blocksize % 2 ^ 64))
    (h : Cache.new u size assoc blocksize latency = .ok c) :
    ∃ k b, c.Powers (size / (assoc * blocksize % 2 ^ 64)) blocksize k b := by
  obtain ⟨-, -, -, -, hpow, hbits, hmask⟩ := new_eq_ok h
  obtain ⟨hblock, hbytes, hoffset⟩ := new_blocksize h
  have hne : blocksize ≠ 0 := by
    rintro rfl
    simp at hbytes
  obtain ⟨b, hb⟩ := exists_pow_of_isPow2 hne hblock
  obtain ⟨k, hk⟩ := exists_pow_of_isPow2 (Nat.one_le_iff_ne_zero.mp hsets) hpow
  have hb' : b < 64 := (Nat.pow_lt_pow_iff_right (by decide)).mp (hb ▸ hblocksize)
  -- the blocks of a set take a multiple of the block size, also after the wrap-around
  have hdvd : 2 ^ b ∣ assoc * blocksize % 2 ^ 64 := by
    rw [Nat.dvd_mod_iff (Nat.pow_dvd_pow 2 hb'.le), hb]
    exact Nat.dvd_mul_left _ _
  have hfits : 2 ^ (k + b) < 2 ^ 64 := by
    calc 2 ^ (k + b) = 2 ^ k * 2 ^ b := Nat.pow_add ..
      _ ≤ size / (assoc * blocksize % 2 ^ 64) * (assoc * blocksize % 2 ^ 64) := by
        rw [← hk]
        exact Nat.mul_le_mul_left _ (Nat.le_of_dvd (Nat.pos_of_ne_zero hbytes) hdvd)
      _ ≤ size := Nat.div_mul_le_self _ _
      _ < 2 ^ 64 := hsize
  have hfits' : k + b < 64 := (Nat.pow_lt_pow_iff_right (by decide)).mp hfits
  have hk' : 2 ^ k < 2 ^ 64 := Nat.pow_lt_pow_right (by decide) (by omega)
  refine ⟨k, b, hk, hb, ?_, ?_, ?_, hfits'⟩
  · rw [hbits, hk, log2, if_neg (Nat.two_pow_pos k).ne', Nat.log2_two_pow]
  · rw [hoffset, hb, log2, if_neg (Nat.two_pow_pos b).ne', Nat.log2_two_pow]
  · have hpos := Nat.two_pow_pos k
    rw [hmask, hk]
    omega

namespace Powers

variable {numSets k b : Nat}

theorem indexOf (h : c.Powers numSets blocksize k b) (addr : Nat) :
    c.indexOf addr = addr / blocksize % numSets := by
  rw [Cache.indexOf, h.numOffsetBits, h.indexMask, Nat.and_two_pow_sub_one_eq_mod,
    Nat.shiftRight_eq_div_pow, h.blocksize, h.numSets]

theorem tagOf (h : c.Powers numSets blocksize k b) (addr : Nat) :
    c.tagOf addr = addr / blocksize / numSets := by
  rw [Cache.tagOf, h.numOffsetBits, h.numIndexBits, Nat.shiftRight_eq_div_pow, Nat.add_comm,
    Nat.pow_add, ← Nat.div_div_eq_div_mul, h.blocksize, h.numSets]

/-- Index and tag are the remainder and the quotient of the block. -/
theorem indexingSafe (h : c.Powers numSets blocksize k b) :
    IndexingSafe c numSets blocksize where
  sets := by
    rw [h.numSets]
    exact Nat.two_pow_pos k
  index addr _ := by
    rw [h.indexOf]
    exact Nat.mod_lt _ (by rw [h.numSets]; exact Nat.two_pow_pos k)
  shift := by
    rw [h.numIndexBits, h.numOffsetBits]
    exact h.fits
  blocks x _ y _ := by
    rw [h.tagOf, h.tagOf, h.indexOf, h.indexOf]
    constructor
    · rintro ⟨htag, hindex⟩
      rw [← Nat.div_add_mod (x / blocksize) numSets, htag, hindex, Nat.div_add_mod]
    · intro hblock
      exact ⟨by rw [hblock], by rw [hblock]⟩

end Powers

/-- **Indexing is safe when a set fits.**  Of the caches that the constructor accepts
those have an index below the number of sets for every address, and a tag that tells
blocks apart, whose size is at least what the blocks of one set take. -/
theorem indexingSafe_iff (u : Unspecified) (size assoc blocksize latency : Nat)
    (hsize : size < 2 ^ 64) (hblocksize : blocksize < 2 ^ 64) (c : Cache)
    (hnew : Cache.new u size assoc blocksize latency = .ok c) :
    IndexingSafe c (size / (assoc * blocksize % 2 ^ 64)) blocksize ↔
      assoc * blocksize % 2 ^ 64 ≤ size := by
  obtain ⟨-, hbytes, -⟩ := new_blocksize hnew
  have hpos := Nat.pos_of_ne_zero hbytes
  constructor
  · intro h
    exact (Nat.div_pos_iff.mp h.sets).2
  · intro hle
    obtain ⟨k, b, hpowers⟩ := new_powers hsize hblocksize (Nat.div_pos hle hpos) hnew
    exact hpowers.indexingSafe

/-- The instruction cache of the default configuration. -/
theorem indexingSafe_iff_default : ∃ c, Cache.new ⟨0, 0, 0⟩ (128 * 1024) 8 64 0 = .ok c ∧
    (IndexingSafe c (128 * 1024 / (8 * 64 % 2 ^ 64)) 64 ↔ 8 * 64 % 2 ^ 64 ≤ 128 * 1024) :=
  ⟨_, rfl, indexingSafe_iff ⟨0, 0, 0⟩ (128 * 1024) 8 64 0 (by decide) (by decide) _ rfl⟩

/-- Of 1 KiB no set of 32 blocks can be made, and the cache has none. -/
theorem smallCache_noSets : ∃ c, Cache.new ⟨0, 0, 0⟩ (2 ^ 10) 32 64 0 = .ok c ∧
    2 ^ 10 / (32 * 64 % 2 ^ 64) = 0 ∧
    ¬ IndexingSafe c (2 ^ 10 / (32 * 64 % 2 ^ 64)) 64 :=
  ⟨_, rfl, rfl, fun h => absurd h.sets (by decide)⟩

end Cache

end CbpSim.Memory
