/-
  Predictor/Interleaving.lean --- banks that share a table do not share an entry.

  Source: src/cbp2016_tage_sc_l.h, the loops over `T` in `Tagepred`, `NOSKIP` and the
  sharing of `gtable` in `init_histories`, and the writes of `update`.

  The active banks of a table are numbered in the order of the loop, and a bank gets
  the part `T` plus its number of the table.  There are fewer active banks than parts,
  so the parts are different and with them the entries.
-/
import CbpSim.Foundation.Ring
import CbpSim.Predictor.Footprint

set_option autoImplicit false

namespace CbpSim.Predictor

open CbpSim.Foundation

/-! ## The parts of a table -/

/-- A bank that is in use. -/
def Active (bank : Nat) : Prop := 1 ≤ bank ∧ bank ≤ nHist ∧ noSkip bank = true

instance (bank : Nat) : Decidable (Active bank) := inferInstanceAs (Decidable (_ ∧ _))

/-- `gtable[i]` and `gtable[j]` are one array. -/
def SameTable (i j : Nat) : Prop := i < born ↔ j < born

instance (i j : Nat) : Decidable (SameTable i j) := inferInstanceAs (Decidable (_ ↔ _))

/-- The banks with short histories. -/
def lowBanks : List Nat := List.range' 1 (born - 1)

/-- The banks with long histories. -/
def highBanks : List Nat := List.range' born (nHist + 1 - born)

theorem mem_lowBanks {bank : Nat} : bank ∈ lowBanks ↔ 1 ≤ bank ∧ bank < born := by
  rw [lowBanks, List.mem_range'_1]
  have hborn : born = 13 := rfl
  omega

theorem mem_highBanks {bank : Nat} : bank ∈ highBanks ↔ born ≤ bank ∧ bank ≤ nHist := by
  rw [highBanks, List.mem_range'_1]
  have hborn : born = 13 := rfl
  have hbank : nHist = 36 := rfl
  omega

/-- The number of active banks before `bank`. -/
def rank (banks : List Nat) (bank : Nat) : Nat := (banks.takeWhile (· != bank)).countP noSkip

theorem rank_cons_self (banks : List Nat) (bank : Nat) : rank (bank :: banks) bank = 0 := by
  simp [rank]

theorem rank_cons_of_ne {banks : List Nat} {b bank : Nat} (h : b ≠ bank) :
    rank (b :: banks) bank = rank banks bank + (noSkip b).toNat := by
  rw [rank, List.takeWhile_cons_of_pos (by simpa using h), List.countP_cons, rank]
  cases noSkip b with
  | false => rfl
  | true => rfl

/-- The part that an active bank gets. -/
theorem spread_eq {nBanks : Nat} {banks : List Nat} {bank : Nat}
    (hbank : bank ∈ banks) (hnodup : banks.Nodup) (hactive : noSkip bank = true) {t : Nat}
    (ht : t < nBanks) (gi : Nat → Nat) :
    spread nBanks banks t gi bank = gi bank + ((t + rank banks bank) % nBanks) <<< logG := by
  induction banks generalizing t gi with
  | nil => cases hbank
  | cons b banks ih =>
    obtain ⟨hfresh, hnodup⟩ := List.nodup_cons.mp hnodup
    rw [spread]
    by_cases hb : b = bank
    · subst hb
      rw [if_pos hactive, spread_of_notMem hfresh, Function.update_self, rank_cons_self,
        Nat.add_zero, Nat.mod_eq_of_lt ht]
    · have hmem : bank ∈ banks := (List.mem_cons.mp hbank).resolve_left (Ne.symm hb)
      rw [rank_cons_of_ne hb]
      cases hskip : noSkip b with
      | false => exact ih hmem hnodup ht gi
      | true =>
        have hnext : (t + 1) % nBanks < nBanks := Nat.mod_lt _ (Nat.zero_lt_of_lt ht)
        have hpart : ((t + 1) % nBanks + rank banks bank) % nBanks =
            (t + (rank banks bank + true.toNat)) % nBanks := by
          rw [Nat.mod_add_mod, Bool.toNat_true, Nat.add_assoc, Nat.add_comm 1]
        rw [if_pos rfl, ih hmem hnodup hnext, Function.update_of_ne (Ne.symm hb), hpart]

/-- Two banks with different numbers get different parts. -/
theorem spread_ne {nBanks : Nat} {banks : List Nat} (hnodup : banks.Nodup)
    (hfew : ∀ bank ∈ banks, rank banks bank < nBanks) {i j : Nat} (hi : i ∈ banks)
    (hj : j ∈ banks) (hactive : noSkip i = true) (hactive' : noSkip j = true)
    (hrank : rank banks i ≠ rank banks j) {t : Nat} (ht : t < nBanks) {gi : Nat → Nat}
    (hgi : gi i < 2 ^ logG) (hgj : gi j < 2 ^ logG) :
    spread nBanks banks t gi i ≠ spread nBanks banks t gi j := by
  have part : ∀ {x part : Nat}, x < 2 ^ logG → (x + part <<< logG) / 2 ^ logG = part := by
    intro x part hx
    rw [Nat.shiftLeft_eq, Nat.add_mul_div_right _ _ (Nat.two_pow_pos _), Nat.div_eq_of_lt hx,
      Nat.zero_add]
  intro heq
  rw [spread_eq hi hnodup hactive ht, spread_eq hj hnodup hactive' ht] at heq
  have hparts := congrArg (· / 2 ^ logG) heq
  rw [part hgi, part hgj] at hparts
  have hri := hfew i hi
  have hrj := hfew j hj
  have hsum : t + rank banks i = t + rank banks j :=
    Ring.eq_of_mod_eq (Nat.le_add_right t _) (by omega) (Nat.le_add_right t _) (by omega) hparts
  exact hrank (Nat.add_left_cancel hsum)

/-! ## The entries of a prediction -/

section Entries

variable (pc : Nat) (h : CbpHist)

/-- The entries of two active banks of a table are different. -/
theorem bankIndices_ne {i j : Nat} (hi : Active i) (hj : Active j) (hsame : SameTable i j)
    (hne : i ≠ j) : bankIndices pc h i ≠ bankIndices pc h j := by
  obtain ⟨hi₁, hi₂, hskip⟩ := hi
  obtain ⟨hj₁, hj₂, hskip'⟩ := hj
  unfold bankIndices
  by_cases hlow : i < born
  · have hi : i ∈ lowBanks := mem_lowBanks.mpr ⟨hi₁, hlow⟩
    have hj : j ∈ lowBanks := mem_lowBanks.mpr ⟨hj₁, hsame.mp hlow⟩
    have hranks : ∀ i ∈ lowBanks, ∀ j ∈ lowBanks, noSkip i = true → noSkip j = true →
        rank lowBanks i = rank lowBanks j → i = j := by decide
    have hgis : ∀ bank ∈ lowBanks,
        spread nBankHigh highBanks ((pc ^^^ (h.phist &&& (2 ^ histLength born - 1))) % nBankHigh)
          (gis pc h) bank < 2 ^ logG := by
      intro bank hbank
      rw [spread_of_notMem]
      · exact gis_lt pc h bank
      · intro hmem
        have := mem_lowBanks.mp hbank
        have := mem_highBanks.mp hmem
        omega
    exact spread_ne List.nodup_range' (by decide) hi hj hskip hskip'
      (fun heq => hne (hranks i hi j hj hskip hskip' heq)) (Nat.mod_lt _ (by decide)) (hgis i hi)
      (hgis j hj)
  · have hi : i ∈ highBanks := mem_highBanks.mpr ⟨Nat.not_lt.mp hlow, hi₂⟩
    have hj : j ∈ highBanks :=
      mem_highBanks.mpr ⟨Nat.not_lt.mp fun hj => hlow (hsame.mpr hj), hj₂⟩
    have hranks : ∀ i ∈ highBanks, ∀ j ∈ highBanks, noSkip i = true → noSkip j = true →
        rank highBanks i = rank highBanks j → i = j := by decide
    have hother : ∀ bank ∈ highBanks, bank ∉ List.range' 1 (born - 1) := by decide
    rw [spread_of_notMem (hother i hi), spread_of_notMem (hother j hj)]
    exact spread_ne List.nodup_range' (by decide) hi hj hskip hskip'
      (fun heq => hne (hranks i hi j hj hskip hskip' heq)) (Nat.mod_lt _ (by decide))
      (gis_lt pc h i) (gis_lt pc h j)

/-- Active banks have different entries. -/
def Interleaved (gi : Nat → Nat) : Prop :=
  ∀ i j, Active i → Active j → SameTable i j → i ≠ j → gi i ≠ gi j

theorem bankIndices_interleaved : Interleaved (bankIndices pc h) :=
  fun _ _ hi hj hsame hne => bankIndices_ne pc h hi hj hsame hne

end Entries

/-- A bank that was found is active. -/
theorem longestHit_active (t : Tables) (l : Lookup) {last : Nat} (hlast : last ≤ nHist)
    (hpos : 0 < longestHit t l last) : Active (longestHit t l last) := by
  unfold longestHit at hpos ⊢
  cases hfind : (List.range' 1 last).reverse.find? (hits t l) with
  | none =>
    rw [hfind] at hpos
    exact absurd hpos (Nat.lt_irrefl 0)
  | some bank =>
    have hmem := List.mem_range'_1.mp (List.mem_reverse.mp (List.mem_of_find?_eq_some hfind))
    have hhits := List.find?_some hfind
    rw [hits, Bool.and_eq_true] at hhits
    rw [Option.getD_some]
    exact ⟨hmem.1, by omega, hhits.1⟩

/-- What a prediction leaves behind of the banks: the matching ones are active, the
alternate one comes before the longest. -/
structure Lookup.Matched (l : Lookup) : Prop where
  interleaved : Interleaved l.gi
  hit : 0 < l.hitBank → Active l.hitBank
  alt : 0 < l.altBank → Active l.altBank ∧ l.altBank < l.hitBank
  unmatched : l.hitBank = 0 → l.longestMatchPred = l.altTaken

theorem predictUsingGivenHist_matched (t : Tables) (pc : Nat) (h : CbpHist) :
    (predictUsingGivenHist t pc h).lookup.Matched := by
  obtain ⟨-, hgi, ⟨l, hhit, halt⟩, hunmatched⟩ := tagepred_eq t pc h
  have hle : (tagepred t pc h).hitBank ≤ nHist := hhit.trans_le (longestHit_le t l nHist)
  exact {
    interleaved := by
      have hinterleaved := bankIndices_interleaved pc h
      rw [← hgi] at hinterleaved
      exact hinterleaved
    hit := fun hpos => by
      have hactive := longestHit_active t l le_rfl (hhit ▸ hpos)
      rw [← hhit] at hactive
      exact hactive
    alt := fun hpos => by
      have hactive := longestHit_active t l ((Nat.sub_le _ 1).trans hle) (halt ▸ hpos)
      have hbefore := longestHit_le t l ((tagepred t pc h).hitBank - 1)
      rw [← halt] at hactive hbefore
      have hpos' := hactive.1
      exact ⟨hactive, show (tagepred t pc h).altBank < (tagepred t pc h).hitBank by omega⟩
    unmatched := hunmatched }

/-! ## Writes -/

namespace Tables

@[simp] theorem gtable_setGtable_self (t : Tables) (bank i : Nat) (e : GEntry) :
    (t.setGtable bank i e).gtable bank i = e := by
  unfold setGtable gtable
  split
  · exact Function.update_self i e t.gtableLow
  · exact Function.update_self i e t.gtableHigh

/-- A write leaves the entries of the other table and of other indices alone. -/
theorem gtable_setGtable_of_ne (t : Tables) {bank i bank' i' : Nat} (e : GEntry)
    (h : SameTable bank' bank → i' ≠ i) :
    (t.setGtable bank i e).gtable bank' i' = t.gtable bank' i' := by
  unfold setGtable gtable
  by_cases hlow : bank < born
  · rw [if_pos hlow]
    by_cases hlow' : bank' < born
    · rw [if_pos hlow', if_pos hlow']
      exact Function.update_of_ne (h (iff_of_true hlow' hlow)) e t.gtableLow
    · rw [if_neg hlow', if_neg hlow']
  · rw [if_neg hlow]
    by_cases hlow' : bank' < born
    · rw [if_pos hlow', if_pos hlow']
    · rw [if_neg hlow', if_neg hlow']
      exact Function.update_of_ne (h (iff_of_false hlow' hlow)) e t.gtableHigh

end Tables

/-- Every active bank but `bank` has the entry that it had. -/
def KeepsOthers (gi : Nat → Nat) (bank : Nat) (t t' : Tables) : Prop :=
  ∀ j, Active j → j ≠ bank → t'.gtable j (gi j) = t.gtable j (gi j)

namespace KeepsOthers

variable {gi : Nat → Nat} {bank : Nat}

theorem refl (t : Tables) : KeepsOthers gi bank t t := fun _ _ _ => rfl

theorem setGtable (hgi : Interleaved gi) (hbank : Active bank) (t : Tables) (e : GEntry) :
    KeepsOthers gi bank t (t.setGtable bank (gi bank) e) := by
  intro j hj hne
  exact t.gtable_setGtable_of_ne e fun hsame => hgi j bank hj hbank hsame hne

end KeepsOthers

namespace Lookup.Matched

variable {l : Lookup}

/-- The body of the allocation loop writes the entry of its bank. -/
theorem tryBank (hl : l.Matched) (a : Alloc) (resolveDir : Bool) {bank : Nat} (hbank : Active bank) :
    KeepsOthers l.gi bank a.tables (a.tryBank l resolveDir bank).tables := by
  unfold Alloc.tryBank
  dsimp only
  split
  · exact .refl _
  · split
    · exact .refl _
    · split
      · split
        · exact .setGtable hl.interleaved hbank _ _
        · exact .setGtable hl.interleaved hbank _ _
      · exact .setGtable hl.interleaved hbank _ _

theorem updateAlternate (hl : l.Matched) (t : Tables) (resolveDir : Bool) :
    KeepsOthers l.gi l.altBank t (t.updateAlternate l resolveDir) := by
  unfold Tables.updateAlternate
  split
  · split
    · rename_i hpos
      exact .setGtable hl.interleaved (hl.alt hpos).1 _ _
    · exact fun _ _ _ => rfl
  · exact .refl _

theorem updateLongest (hl : l.Matched) (hpos : 0 < l.hitBank) (t : Tables) (resolveDir : Bool) :
    KeepsOthers l.gi l.hitBank t (t.updateLongest l resolveDir) :=
  .setGtable hl.interleaved (hl.hit hpos) _ _

theorem clearUseful (hl : l.Matched) (hpos : 0 < l.hitBank) (t : Tables) (resolveDir : Bool) :
    KeepsOthers l.gi l.hitBank t (t.clearUseful l resolveDir) := by
  unfold Tables.clearUseful
  split
  · exact .setGtable hl.interleaved (hl.hit hpos) _ _
  · exact .refl _

/-- Without a match the predictions agree, and no `u` counter is written. -/
theorem updateUseful (hl : l.Matched) (cfg : Config) (t : Tables) (resolveDir isLdDependent : Bool) :
    KeepsOthers l.gi l.hitBank t (Predictor.updateUseful cfg t l resolveDir isLdDependent) := by
  unfold Predictor.updateUseful
  dsimp only
  split
  · rename_i hcond
    have hpos : 0 < l.hitBank := by
      by_contra hzero
      rw [hl.unmatched (by omega)] at hcond
      simp at hcond
    exact .setGtable hl.interleaved (hl.hit hpos) _ _
  · exact .refl _

/-- The prediction counters of the two matching banks are trained. -/
theorem updateCounters (hl : l.Matched) (t : Tables) (resolveDir : Bool) {j : Nat}
    (hj : Active j) (hhit : j ≠ l.hitBank) (halt : j ≠ l.altBank) :
    (Predictor.updateCounters t l resolveDir).gtable j (l.gi j) = t.gtable j (l.gi j) := by
  rw [t.updateCounters_parts]
  split
  · rfl
  · rename_i hne
    have hpos := Nat.pos_of_ne_zero hne
    rw [hl.clearUseful hpos _ _ j hj hhit, hl.updateLongest hpos _ _ j hj hhit,
      hl.updateAlternate _ _ j hj halt]

end Lookup.Matched

/-- **Interleaved banks never alias.**  After `Tagepred` the entries of two active banks of
one table are different places of that table; so each write of an update, to the bank
that the allocation tries, to the alternate bank or to the longest match, leaves the
entries of all other active banks as they were. -/
theorem banks_never_alias (t : Tables) (pc : Nat) (h : CbpHist) :
    let l := (predictUsingGivenHist t pc h).lookup
    (∀ i j, Active i → Active j → SameTable i j → i ≠ j → l.gi i ≠ l.gi j) ∧
      (∀ i, Active i → l.gi i < sizeTable i) ∧
      (∀ (a : Alloc) (resolveDir : Bool) (bank : Nat), Active bank →
        KeepsOthers l.gi bank a.tables (a.tryBank l resolveDir bank).tables) ∧
      (∀ (t' : Tables) (resolveDir : Bool), 0 < l.hitBank →
        KeepsOthers l.gi l.altBank t' (t'.updateAlternate l resolveDir) ∧
          KeepsOthers l.gi l.hitBank t' (t'.updateLongest l resolveDir) ∧
          KeepsOthers l.gi l.hitBank t' (t'.clearUseful l resolveDir)) ∧
      (∀ (t' : Tables) (resolveDir : Bool) (j : Nat), Active j → j ≠ l.hitBank → j ≠ l.altBank →
        (updateCounters t' l resolveDir).gtable j (l.gi j) = t'.gtable j (l.gi j)) ∧
      ∀ (cfg : Config) (t' : Tables) (resolveDir isLdDependent : Bool),
        KeepsOthers l.gi l.hitBank t' (updateUseful cfg t' l resolveDir isLdDependent) := by
  have hl := predictUsingGivenHist_matched t pc h
  have hbounds := predictUsingGivenHist_inBounds t pc h
  refine ⟨hl.interleaved, ?_, ?_, ?_, ?_, ?_⟩
  · exact fun i hi => hbounds.gi i hi.1 hi.2.1
  · exact fun a resolveDir bank hbank => hl.tryBank a resolveDir hbank
  · intro t' resolveDir hpos
    exact ⟨hl.updateAlternate t' resolveDir, hl.updateLongest hpos t' resolveDir,
      hl.clearUseful hpos t' resolveDir⟩
  · exact fun t' resolveDir j hj hhit halt => hl.updateCounters t' resolveDir hj hhit halt
  · exact fun cfg t' resolveDir isLdDependent => hl.updateUseful cfg t' resolveDir isLdDependent

/-- Banks 9 and 12 share a table, and bank 36 is in the other one. -/
theorem banks_never_alias_of_init :
    (predictUsingGivenHist .init 64 .init).lookup.gi 9 ≠
        (predictUsingGivenHist .init 64 .init).lookup.gi 12 ∧
      (predictUsingGivenHist .init 64 .init).lookup.gi 36 < 20 * 1024 := by
  obtain ⟨hne, hlt, -⟩ := banks_never_alias .init 64 .init
  exact ⟨hne 9 12 (by decide) (by decide) (by decide) (by decide), hlt 36 (by decide)⟩

end CbpSim.Predictor
