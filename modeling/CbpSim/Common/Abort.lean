/-
  Common/Abort.lean --- the ways a modelled function stops the program.

  Source: the `assert`s, throwing accesses and divisions by zero of src/lib and
  of the predictor interface.  A function of the model that can stop the program
  returns `Except Abort _`; each constructor names one site (or one group of
  identical sites), so a theorem can say WHICH assert never fails.
-/
import Mathlib.Tactic

set_option autoImplicit false

namespace CbpSim

/-- Why the program stopped. -/
inductive Abort where
  /-- `resource_schedule::schedule`: `start_cycle >= base_cycle` -/
  | scheduleStart
  /-- `resource_schedule::try_schedule`: `try_cycle >= base_cycle` -/
  | tryScheduleStart
  /-- `resource_schedule::advance_base_cycle`: `new_base_cycle >= base_cycle` -/
  | advanceBaseCycle
  /-- `cache_t::cache_t`: `IsPow2(blocksize)` -/
  | cacheBlocksize
  /-- `cache_t::cache_t`: the division by `assoc*blocksize` -/
  | cacheDivision
  /-- `cache_t::cache_t`: `IsPow2(num_sets)` -/
  | cacheNumSets
  /-- `cache_t::access` and `is_hit`: `C[index]` past the last set -/
  | cacheIndex
  /-- `cache_t::access`: `max_lru_ctr == (assoc - 1)` -/
  | cacheMaxLru
  /-- `cache_t::access`: `victim_way < assoc` -/
  | cacheVictimWay
  /-- `cache_t::update_lru`: `C[index][way].lru < assoc` -/
  | cacheLru
  /-- `StridePrefetcher::victim_way`: a valid victim way is found -/
  | prefetchVictim
  /-- `StridePrefetcher::train`: the `Invalid` case of the state switch -/
  | prefetchInvalid
  /-- `TraceReader`: the class byte is `undefInstClass` -/
  | readUndef
  /-- `TraceReader`: an unconditional branch is taken -/
  | readUncondTaken
  /-- `capture_base_update_log_reg`: `mNumOutRegs <= 1` for a store -/
  | captureStoreOutputs
  /-- `capture_base_update_log_reg`: `(mNumOutRegs == 1) == (mBaseUpd == 1)` -/
  | captureStoreMismatch
  /-- `capture_base_update_log_reg`: a load has a destination -/
  | captureLoadOutputs
  /-- `capture_base_update_log_reg`: `overlap_vec.size() <= 1` -/
  | captureOverlap
  /-- `capture_base_update_log_reg`: `base_update` when `mBaseUpd == 1` -/
  | captureNoOverlap
  /-- `readInstr`: the base-update register is met once -/
  | readBaseUpdTwice
  /-- `readInstr`: a store does not write a FP/SIMD/SVE register -/
  | readStoreSimd
  /-- `readInstr`: the base-update register was met -/
  | readBaseUpdMissing
  /-- `readInstr`: `mMemSize % true_str_val_regs == 0` -/
  | readStoreSize
  /-- `readInstr`: `mMemPieces > 0` -/
  | readMemPieces
  /-- `readInstr`: `mSizeFactor == 0` for a non-memory record -/
  | readSizeFactor
  /-- `readInstr`: `mTotalPieces >= 1`, and the division by it before that -/
  | readTotalPieces
  /-- `readInstr`: `mTotalPieces == (mMemPieces + base_update_present)` -/
  | readPieceSum
  /-- `readInstr`: `mNumInRegs <= 3` for a non-store -/
  | readInputs
  /-- `populateNewInstr`: an assert on the piece counters -/
  | populatePieces
  /-- `populateNewInstr`: an assert on the taken flag -/
  | populateTaken
  /-- `populateNewInstr`: an assert on the base-update register -/
  | populateBaseUpd
  /-- `populateNewInstr`: an assert on the input registers, or `at()` on them -/
  | populateInputs
  /-- `populateNewInstr`: `at()` on `mOutRegs` or `mOutRegsValues` -/
  | populateOutputs
  /-- `uarchsim_t::uarchsim_t`: `WINDOW_SIZE != 0` -/
  | windowSize
  /-- `uarchsim_t::uarchsim_t`: `NUM_LDST_LANES > 0` -/
  | numLdstLanes
  /-- `uarchsim_t::uarchsim_t`: `NUM_ALU_LANES > 0` -/
  | numAluLanes
  /-- `end_current_begin_new_epoch`: `epoch_end_cycle > last_epoch_end_cycle` -/
  | epochEndCycle
  /-- `eval_decode`: `current_cycle <= decode_cycle` -/
  | evalDecodeLate
  /-- `eval_decode`: `decode_cycle == window_entry.decode_cycle` -/
  | evalDecodeCycle
  /-- `eval_aq`: `current_cycle <= agen_cycle` -/
  | evalAqLate
  /-- `eval_aq`: `is_mem(..)`, and `value()` on the address and the size -/
  | evalAqMem
  /-- `eval_aq`: `current_cycle > window_entry.decode_cycle` -/
  | evalAqDecode
  /-- `eval_aq`: `current_cycle <= window_entry.exec_cycle` -/
  | evalAqExec
  /-- `eval_exec`: `current_cycle <= exec_cycle` -/
  | evalExecLate
  /-- `eval_exec`: `window_entry.exec_cycle == exec_cycle` -/
  | evalExecCycle
  /-- `locate_entry_in_window`: the three asserts on the entry found -/
  | locateEntry
  /-- `step`: `previous_fetch_cycle <= fetch_cycle` -/
  | stepFetchOrder
  /-- `step`: `next_fetch_cycle >= fetch_cycle` -/
  | stepIcache
  /-- `step`: the default case of the switch on `VP_TRACK` -/
  | stepTrack
  /-- `step`: a register number is below `RFSIZE` -/
  | stepRegister
  /-- `step`: no lane has a slot before the last 64-bit cycle -/
  | stepCycleRange
  /-- `step`: `temp_cycle >= exec_cycle` -/
  | stepLoadCycle
  /-- `step`: `latency >= 2` -/
  | stepLoadLatency
  /-- `populate_exec_info`: `branch_taken` -/
  | stepBranchTaken
  /-- `step`: `fetch_cycle < exec_cycle` -/
  | stepExecCycle
  /-- `step`: `window.size() <= window_capacity` -/
  | stepWindowSize
  /-- `step`: `AQ.size() <= window_capacity` -/
  | stepAqSize
  /-- `step`: `window.front().retire_cycle > fetch_cycle` -/
  | stepFrontRetire
  /-- `step`: `fetch_cycle < window.back().retire_cycle` on a squash -/
  | stepSquash
  /-- `step`: `taken_branch` -/
  | stepTakenBranch
  /-- `step`: `fetch_cycle > predict_cycle` -/
  | stepMispredict
  /-- `output_periodic_info`: as many instruction counts as cycle counts -/
  | periodicSizes
  /-- `output_periodic_info`: `at()` on a vector of the epochs -/
  | periodicEpoch
  /-- `get_unique_inst_id`: `piece < 16` -/
  | instIdPiece
  /-- `CBP2016_TAGE_SC_L::update`: `pred_time_histories.at` -/
  | tageHistoryMissing
  /-- `SampleCondPredictor::update`: `pred_time_histories.at` -/
  | sampleHistoryMissing
  /-- `spec_update`: `is_br(inst_class)`, and the default case of its switch -/
  | specUpdateClass
  /-- `notify_instr_decode`, `notify_instr_commit`: `dst_reg_info.value()` -/
  | loadDestination
  /-- `notify_instr_execute_resolve`: `taken.value()` -/
  | executeTaken
  /-- `notify_instr_execute_resolve`: `assert(pred_dir)` -/
  | executePredDir
  deriving DecidableEq, Repr

/-- Why a call of an object is refused: the program stops, or the call is out of
the order that its callers keep. -/
inductive Refusal where
  | abort (reason : Abort)
  | order
  deriving DecidableEq, Repr

end CbpSim
