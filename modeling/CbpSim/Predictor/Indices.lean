/-
  Predictor/Indices.lean --- the cells of the arrays that the predictor uses.

  Source: src/cbp2016_tage_sc_l.h, the sizes of the tables and of the arrays of
  `cbp_hist_t`, and the indices that its functions compute.

  The model's arrays have no end.  A `Cell` is a place in one of them, in bounds when
  the array of the source has it.  What a prediction leaves in the members of the
  predictor is in bounds whatever the tables, the history and the program counter.
-/
import Mathlib.Data.Nat.Basic
import Mathlib.Order.Basic
import CbpSim.Predictor.Tage

set_option autoImplicit false

namespace CbpSim.Predictor

/-! ## The arrays -/

/-- `SizeTable` of the table that the bank is in. -/
def sizeTable (bank : Nat) : Nat := (if bank < born then nBankLow else nBankHigh) * 2 ^ logG

/-- A place in an array of the predictor.  `perBank` stands for the arrays with one element
for each bank: `GI`, `GTAG`, `NOSKIP`, `m`, `TB`, `logg`, `ch_i` and `ch_t`. -/
inductive Cell where
  | btable (i : Nat)
  | gtable (bank i : Nat)
  | perBank (i : Nat)
  | useAltOnNa (i : Nat)
  | bias (i : Nat)
  | biasSK (i : Nat)
  | biasBank (i : Nat)
  | weight (i : Nat)
  | pUpdateThreshold (i : Nat)
  | gehl (s : GehlShape) (table i : Nat)
  | ltable (i : Nat)
  | ghist (i : Nat)
  | lShist (i : Nat)
  | sSlhist (i : Nat)
  | tSlhist (i : Nat)
  | imHist (i : Nat)
  deriving DecidableEq, Repr

/-- The array of the source has the place; `gtable[0]` has none. -/
def Cell.InBounds : Cell → Prop
  | .btable i => i < 2 ^ logB
  | .gtable bank i => 1 ≤ bank ∧ bank ≤ nHist ∧ i < sizeTable bank
  | .perBank i => i ≤ nHist
  | .useAltOnNa i => i < sizeUseAlt
  | .bias i => i < 2 ^ logBias
  | .biasSK i => i < 2 ^ logBias
  | .biasBank i => i < 2 ^ logBias
  | .weight i => i < 2 ^ 3
  | .pUpdateThreshold i => i < 2 ^ 6
  | .gehl s table i => table < s.length.length ∧ i < 2 ^ s.logs
  | .ltable i => i < 2 ^ logL
  | .ghist i => i < histBufferLength
  | .lShist i => i < 256
  | .sSlhist i => i < 16
  | .tSlhist i => i < 16
  | .imHist i => i < 256

/-! ## Masks -/

theorem and_mask_lt (x n : Nat) : x &&& (2 ^ n - 1) < 2 ^ n :=
  Nat.and_lt_two_pow x (Nat.sub_lt (Nat.two_pow_pos n) Nat.one_pos)

theorem histSlot_lt (pt : Int) : histSlot pt < histBufferLength := by
  have h := Int.emod_nonneg pt (show (histBufferLength : Int) ≠ 0 by decide)
  have h' := Int.emod_lt_of_pos pt (show (0 : Int) < histBufferLength by decide)
  unfold histSlot
  omega

theorem localIndex_lt (pc : Nat) : localIndex pc < 256 := and_mask_lt _ 8

theorem secondLocalIndex_lt (pc : Nat) : secondLocalIndex pc < 16 := and_mask_lt _ 4

theorem thirdLocalIndex_lt (pc : Nat) : thirdLocalIndex pc < 16 := and_mask_lt _ 4

theorem indUseAlt_lt (l : Lookup) : indUseAlt l < sizeUseAlt :=
  (Nat.mod_lt _ (by decide)).trans (by decide)

theorem gehlShape_index_lt (s : GehlShape) (pc bHist i : Nat) : s.index pc bHist i < 2 ^ s.logs := by
  unfold GehlShape.index
  exact (and_mask_lt _ _).trans_le (Nat.pow_le_pow_right (by decide) (Nat.sub_le _ _))

/-! ## The banks -/

theorem gis_lt (pc : Nat) (h : CbpHist) (i : Nat) : gis pc h i < 2 ^ logG := by
  have hindex : gindex pc (oddBank i) h.phist h.chI < 2 ^ logG := and_mask_lt _ _
  unfold gis
  dsimp only
  split
  · exact hindex
  · exact Nat.xor_lt_two_pow hindex (and_mask_lt _ _)

section Spread

variable {nBanks : Nat}

theorem spread_of_notMem {banks : List Nat} {i : Nat} (hi : i ∉ banks) (t : Nat) (gi : Nat → Nat) :
    spread nBanks banks t gi i = gi i := by
  induction banks generalizing t gi with
  | nil => rfl
  | cons b banks ih =>
    obtain ⟨hne, hi⟩ : i ≠ b ∧ i ∉ banks := by simpa using hi
    rw [spread]
    split
    · rw [ih hi, Function.update_of_ne hne]
    · exact ih hi _ _

/-- A bank gets one part of the table, or none. -/
theorem spread_lt {banks : List Nat} (hnodup : banks.Nodup) {i : Nat} (hi : i ∈ banks) {t : Nat}
    (ht : t < nBanks) {gi : Nat → Nat} (hgi : ∀ j ∈ banks, gi j < 2 ^ logG) :
    spread nBanks banks t gi i < nBanks * 2 ^ logG := by
  have hnext : (t + 1) % nBanks < nBanks := Nat.mod_lt _ (Nat.zero_lt_of_lt ht)
  induction banks generalizing t gi with
  | nil => cases hi
  | cons b banks ih =>
    obtain ⟨hfresh, hnodup⟩ := List.nodup_cons.mp hnodup
    have hpart : gi b + t <<< logG < nBanks * 2 ^ logG := by
      have hlt := hgi b List.mem_cons_self
      have hle : (t + 1) * 2 ^ logG ≤ nBanks * 2 ^ logG := Nat.mul_le_mul_right _ ht
      rw [Nat.add_mul] at hle
      rw [Nat.shiftLeft_eq]
      omega
    have hrest : ∀ j ∈ banks, gi j < 2 ^ logG := fun j hj => hgi j (List.mem_cons_of_mem b hj)
    rw [spread]
    rcases List.mem_cons.mp hi with rfl | hi
    · -- the bank itself: the rest of the loop leaves it alone
      split
      · rw [spread_of_notMem hfresh, Function.update_self]
        exact hpart
      · rw [spread_of_notMem hfresh]
        exact (Nat.le_add_right _ _).trans_lt hpart
    · split
      · apply ih hnodup hi hnext
        · intro j hj
          rw [Function.update_of_ne (fun heq : j = b => hfresh (heq ▸ hj))]
          exact hrest j hj
        · exact Nat.mod_lt _ (Nat.zero_lt_of_lt ht)
      · exact ih hnodup hi ht hrest hnext

end Spread

/-- The index of a bank is in its table. -/
theorem bankIndices_lt (pc : Nat) (h : CbpHist) {bank : Nat} (hlow : 1 ≤ bank)
    (hhigh : bank ≤ nHist) : bankIndices pc h bank < sizeTable bank := by
  have hbank : nHist = 36 := rfl
  have hborn : born = 13 := rfl
  unfold bankIndices sizeTable
  split
  · rename_i hlt
    apply spread_lt List.nodup_range'
    · exact List.mem_range'_1.mpr (by omega)
    · exact Nat.mod_lt _ (by decide)
    · intro j hj
      rw [spread_of_notMem]
      · exact gis_lt pc h j
      · intro hmem
        have := List.mem_range'_1.mp hj
        have := List.mem_range'_1.mp hmem
        omega
  · rename_i hge
    rw [spread_of_notMem]
    · apply spread_lt List.nodup_range'
      · exact List.mem_range'_1.mpr (by omega)
      · exact Nat.mod_lt _ (by decide)
      · exact fun j _ => gis_lt pc h j
    · intro hmem
      have := List.mem_range'_1.mp hmem
      omega

/-! ## What a prediction leaves behind -/

/-- The ways of the loop predictor are in its table, and the hitting way is one. -/
structure LoopLookup.InBounds (l : LoopLookup) : Prop where
  index : ∀ way, way < 4 → l.index way < 2 ^ logL
  lHit : ∀ way, l.lHit = some way → way < 4

/-- The four ways of a set follow each other. -/
theorem loopIndex_lt {a b way : Nat} (ha : a < 2 ^ 3) (hb : b < 2 ^ 3) (hway : way < 4) :
    (a <<< 2 ^^^ (b >>> way) <<< 2) + way < 2 ^ logL := by
  have hshift : b >>> way < 2 ^ 3 := (Nat.shiftRight_le b way).trans_lt hb
  have hset : a ^^^ b >>> way < 2 ^ 3 := Nat.xor_lt_two_pow ha hshift
  rw [← Nat.shiftLeft_xor_distrib, Nat.shiftLeft_eq]
  unfold logL
  omega

theorem getloop_inBounds (pc : Nat) (ltable : Nat → LEntry) : (getloop pc ltable).InBounds := by
  have hset : (pc ^^^ (pc >>> 2)) &&& (2 ^ (logL - 2) - 1) < 2 ^ 3 := and_mask_lt _ 3
  have hlib : (pc >>> (logL - 2)) &&& (2 ^ (logL - 2) - 1) < 2 ^ 3 := and_mask_lt _ 3
  unfold getloop
  dsimp only
  split
  · rename_i way hfind
    constructor
    · exact fun _ => loopIndex_lt hset hlib
    · intro way' hway'
      obtain rfl := Option.some.inj hway'
      exact List.mem_range.mp (List.mem_of_find?_eq_some hfind)
  · constructor
    · exact fun _ => loopIndex_lt hset hlib
    · intro way hway
      cases hway

/-- The members that a prediction writes are in bounds; without a matching bank the
longest match and the alternate prediction are the same. -/
structure Lookup.InBounds (l : Lookup) : Prop where
  bi : l.bi < 2 ^ logB
  gi : ∀ bank, 1 ≤ bank → bank ≤ nHist → l.gi bank < sizeTable bank
  hitBank : l.hitBank ≤ nHist
  altBank : l.altBank ≤ nHist
  unmatched : l.hitBank = 0 → l.longestMatchPred = l.altTaken
  loop : l.loop.InBounds

theorem lookup_init_inBounds : ({} : Lookup).InBounds where
  bi := by decide
  gi bank _ _ := by
    have hlow : 0 < nBankLow * 2 ^ logG := by decide
    have hhigh : 0 < nBankHigh * 2 ^ logG := by decide
    unfold sizeTable
    split
    · exact hlow
    · exact hhigh
  hitBank := by decide
  altBank := by decide
  unmatched _ := rfl
  loop := by
    constructor
    · exact fun way => loopIndex_lt (a := 0) (b := 0) (by decide) (by decide)
    · intro way hway
      obtain rfl := Option.some.inj hway
      decide

theorem longestHit_le (t : Tables) (l : Lookup) (last : Nat) : longestHit t l last ≤ last := by
  unfold longestHit
  cases hfind : (List.range' 1 last).reverse.find? (hits t l) with
  | none => exact Nat.zero_le last
  | some bank =>
    have hmem := List.mem_reverse.mp (List.mem_of_find?_eq_some hfind)
    have := List.mem_range'_1.mp hmem
    dsimp only [Option.getD]
    omega

/-- The members that the loops of `Tagepred` write. -/
theorem tagepred_eq (t : Tables) (pc : Nat) (h : CbpHist) :
    (tagepred t pc h).bi = (pc ^^^ (pc >>> 2)) &&& (2 ^ logB - 1) ∧
      (tagepred t pc h).gi = bankIndices pc h ∧
      (∃ l, (tagepred t pc h).hitBank = longestHit t l nHist ∧
        (tagepred t pc h).altBank = longestHit t l ((tagepred t pc h).hitBank - 1)) ∧
      ((tagepred t pc h).hitBank = 0 →
        (tagepred t pc h).longestMatchPred = (tagepred t pc h).altTaken) := by
  unfold tagepred
  dsimp only
  split
  · rename_i hzero
    exact ⟨rfl, rfl, ⟨_, rfl, rfl⟩, fun _ => rfl⟩
  · rename_i hne
    split
    · exact ⟨rfl, rfl, ⟨_, rfl, rfl⟩, fun hzero => absurd hzero hne⟩
    · exact ⟨rfl, rfl, ⟨_, rfl, rfl⟩, fun hzero => absurd hzero hne⟩

theorem predictUsingGivenHist_inBounds (t : Tables) (pc : Nat) (h : CbpHist) :
    (predictUsingGivenHist t pc h).lookup.InBounds := by
  obtain ⟨hbi, hgi, ⟨l, hhit, halt⟩, hunmatched⟩ := tagepred_eq t pc h
  have hle : (tagepred t pc h).hitBank ≤ nHist := hhit ▸ longestHit_le t l nHist
  exact {
    bi := hbi ▸ and_mask_lt _ _
    gi := by
      intro bank hlow hhigh
      have heq : (predictUsingGivenHist t pc h).lookup.gi = bankIndices pc h := hgi
      rw [heq]
      exact bankIndices_lt pc h hlow hhigh
    hitBank := hle
    altBank := by
      have heq : (predictUsingGivenHist t pc h).lookup.altBank = _ := halt
      rw [heq]
      exact (longestHit_le t l _).trans ((Nat.sub_le _ _).trans hle)
    unmatched := hunmatched
    loop := getloop_inBounds pc h.ltable }

/-! ## The cells of a prediction and of the training -/

/-- The cells of a component of the corrector. -/
def GehlShape.cells (s : GehlShape) (pc bHist : Nat) : List Cell :=
  .weight (indUpdS pc) :: (List.range s.length.length).map fun i => .gehl s i (s.index pc bHist i)

namespace Lookup

/-- The cells of the bimodal table. -/
def baseCells (l : Lookup) : List Cell := [.btable l.bi, .btable (l.bi >>> hystShift)]

/-- The entry of the longest match, and the counter that chooses between it and the
alternate one. -/
def hitCells (l : Lookup) : List Cell :=
  if l.hitBank > 0 then [.gtable l.hitBank (l.gi l.hitBank), .useAltOnNa (indUseAlt l)] else []

/-- The entry of the alternate match. -/
def altCells (l : Lookup) : List Cell :=
  if l.altBank > 0 then [.gtable l.altBank (l.gi l.altBank)] else []

/-- The banks that are looked up: those in use. -/
def bankCells (l : Lookup) : List Cell :=
  ((List.range' 1 nHist).filter noSkip).map fun i => .gtable i (l.gi i)

/-- The cells of the statistical corrector. -/
def correctorCells (l : Lookup) (pc : Nat) (h : CbpHist) : List Cell :=
  [.bias (biasIndex pc l), .biasSK (biasSKIndex pc l), .biasBank (biasBankIndex pc l),
    .weight (indUpdS pc), .pUpdateThreshold (indUpd pc), .lShist (localIndex pc),
    .sSlhist (secondLocalIndex pc), .tSlhist (thirdLocalIndex pc), .imHist h.imliCount] ++
  GehlShape.ggehl.cells (globalPc pc l) h.GHIST ++ GehlShape.pgehl.cells pc h.phist ++
  GehlShape.lgehl.cells pc (h.lShist (localIndex pc)) ++
  GehlShape.sgehl.cells pc (h.sSlhist (secondLocalIndex pc)) ++
  GehlShape.tgehl.cells pc (h.tSlhist (thirdLocalIndex pc)) ++
  GehlShape.imgehl.cells pc (h.imHist h.imliCount) ++ GehlShape.igehl.cells pc h.imliCount

/-- The ways of the loop predictor. -/
def loopCells (l : Lookup) : List Cell := (List.range 4).map fun way => .ltable (l.loop.index way)

/-- The cells that `predict_using_given_hist` uses. -/
def predictCells (l : Lookup) (pc : Nat) (h : CbpHist) : List Cell :=
  (List.range' 1 nHist).map .perBank ++ l.baseCells ++ l.bankCells ++ l.hitCells ++ l.altCells ++
    l.loopCells ++ l.correctorCells pc h

/-- The banks that the allocation may come to: `I + 1` and `(I ^ 1) + 1`, if in use. -/
def allocCells (l : Lookup) : List Cell :=
  (((List.range nHist).flatMap fun i => [i + 1, (i ^^^ 1) + 1]).filter noSkip).map fun bank =>
    .gtable bank (l.gi bank)

/-- The entry whose `u` counter is incremented. -/
def usefulCells (l : Lookup) : List Cell :=
  if l.longestMatchPred != l.altTaken then [.gtable l.hitBank (l.gi l.hitBank)] else []

/-- The cells that the second `update` uses. -/
def trainCells (l : Lookup) (pc : Nat) (h : CbpHist) : List Cell :=
  l.loopCells ++ l.correctorCells pc h ++ l.hitCells ++ l.allocCells ++ l.baseCells ++ l.altCells ++
    l.usefulCells

end Lookup

/-! ### They are in bounds -/

theorem GehlShape.cells_inBounds (s : GehlShape) (pc bHist : Nat) :
    ∀ cell ∈ s.cells pc bHist, cell.InBounds := by
  intro cell hcell
  rcases List.mem_cons.mp hcell with rfl | hcell
  · exact and_mask_lt _ 3
  · obtain ⟨i, hi, rfl⟩ := List.mem_map.mp hcell
    exact ⟨List.mem_range.mp hi, gehlShape_index_lt s pc bHist i⟩

namespace Lookup

variable {l : Lookup}

theorem InBounds.baseCells (hl : l.InBounds) : ∀ cell ∈ l.baseCells, cell.InBounds := by
  have hshared : l.bi >>> hystShift < 2 ^ logB := (Nat.shiftRight_le _ _).trans_lt hl.bi
  intro cell hcell
  simp only [Lookup.baseCells, List.mem_cons, List.not_mem_nil, or_false] at hcell
  rcases hcell with rfl | rfl
  · exact hl.bi
  · exact hshared

/-- A bank that is not 0 is in its table. -/
theorem InBounds.gtable (hl : l.InBounds) {bank : Nat} (hpos : 0 < bank) (hle : bank ≤ nHist) :
    (Cell.gtable bank (l.gi bank)).InBounds :=
  ⟨hpos, hle, hl.gi bank hpos hle⟩

theorem InBounds.hitCells (hl : l.InBounds) : ∀ cell ∈ l.hitCells, cell.InBounds := by
  unfold Lookup.hitCells
  split
  · rename_i hpos
    intro cell hcell
    simp only [List.mem_cons, List.not_mem_nil, or_false] at hcell
    rcases hcell with rfl | rfl
    · exact hl.gtable hpos hl.hitBank
    · exact indUseAlt_lt l
  · simp

theorem InBounds.altCells (hl : l.InBounds) : ∀ cell ∈ l.altCells, cell.InBounds := by
  unfold Lookup.altCells
  split
  · rename_i hpos
    intro cell hcell
    rw [List.mem_singleton.mp hcell]
    exact hl.gtable hpos hl.altBank
  · simp

theorem InBounds.bankCells (hl : l.InBounds) : ∀ cell ∈ l.bankCells, cell.InBounds := by
  intro cell hcell
  obtain ⟨bank, hbank, rfl⟩ := List.mem_map.mp hcell
  have := List.mem_range'_1.mp (List.mem_filter.mp hbank).1
  exact hl.gtable (by omega) (by omega)

theorem InBounds.loopCells (hl : l.InBounds) : ∀ cell ∈ l.loopCells, cell.InBounds := by
  intro cell hcell
  obtain ⟨way, hway, rfl⟩ := List.mem_map.mp hcell
  exact hl.loop.index way (List.mem_range.mp hway)

theorem correctorCells_inBounds (l : Lookup) (pc : Nat) {h : CbpHist}
    (himli : h.imliCount < 256) : ∀ cell ∈ l.correctorCells pc h, cell.InBounds := by
  unfold correctorCells
  simp only [List.forall_mem_append]
  refine ⟨⟨⟨⟨⟨⟨⟨?_, ?_⟩, ?_⟩, ?_⟩, ?_⟩, ?_⟩, ?_⟩, ?_⟩
  · intro cell hcell
    simp only [List.mem_cons, List.not_mem_nil, or_false] at hcell
    rcases hcell with rfl | rfl | rfl | rfl | rfl | rfl | rfl | rfl | rfl
    · exact and_mask_lt _ _
    · exact and_mask_lt _ _
    · exact and_mask_lt _ _
    · exact and_mask_lt _ 3
    · exact and_mask_lt _ 6
    · exact localIndex_lt pc
    · exact secondLocalIndex_lt pc
    · exact thirdLocalIndex_lt pc
    · exact himli
  all_goals exact GehlShape.cells_inBounds _ _ _

/-- Both banks of a pair are banks of the predictor. -/
theorem InBounds.allocCells (hl : l.InBounds) : ∀ cell ∈ l.allocCells, cell.InBounds := by
  have hpair : ∀ i < nHist, i ^^^ 1 < nHist := by decide
  intro cell hcell
  obtain ⟨bank, hbank, rfl⟩ := List.mem_map.mp hcell
  obtain ⟨i, hi, hbank⟩ := List.mem_flatMap.mp (List.mem_filter.mp hbank).1
  have hi := List.mem_range.mp hi
  simp only [List.mem_cons, List.not_mem_nil, or_false] at hbank
  rcases hbank with rfl | rfl
  · exact hl.gtable (Nat.succ_pos _) hi
  · exact hl.gtable (Nat.succ_pos _) (hpair i hi)

/-- The `u` counter is incremented only if there is a longest match. -/
theorem InBounds.usefulCells (hl : l.InBounds) : ∀ cell ∈ l.usefulCells, cell.InBounds := by
  unfold Lookup.usefulCells
  split
  · rename_i hne
    intro cell hcell
    rw [List.mem_singleton.mp hcell]
    have hpos : 0 < l.hitBank := by
      by_contra hzero
      exact absurd (hl.unmatched (by omega)) (by simpa using hne)
    exact hl.gtable hpos hl.hitBank
  · simp

theorem InBounds.predictCells (hl : l.InBounds) (pc : Nat) {h : CbpHist}
    (himli : h.imliCount < 256) : ∀ cell ∈ l.predictCells pc h, cell.InBounds := by
  unfold Lookup.predictCells
  simp only [List.forall_mem_append]
  refine ⟨⟨⟨⟨⟨⟨?_, hl.baseCells⟩, hl.bankCells⟩, hl.hitCells⟩, hl.altCells⟩, hl.loopCells⟩,
    correctorCells_inBounds l pc himli⟩
  intro cell hcell
  obtain ⟨bank, hbank, rfl⟩ := List.mem_map.mp hcell
  have hbank := List.mem_range'_1.mp hbank
  exact Nat.le_of_lt_succ (hbank.2.trans_eq (Nat.add_comm 1 nHist))

theorem InBounds.trainCells (hl : l.InBounds) (pc : Nat) {h : CbpHist}
    (himli : h.imliCount < 256) : ∀ cell ∈ l.trainCells pc h, cell.InBounds := by
  unfold Lookup.trainCells
  simp only [List.forall_mem_append]
  exact ⟨⟨⟨⟨⟨⟨hl.loopCells, correctorCells_inBounds l pc himli⟩, hl.hitCells⟩, hl.allocCells⟩,
    hl.baseCells⟩, hl.altCells⟩, hl.usefulCells⟩

end Lookup

end CbpSim.Predictor
