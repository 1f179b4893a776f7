/-
  Common/CommandLine.lean --- what a command line can set.

  Source: src/lib/cbp.cc, `parseargs`.

  A command line is written from a list of choices, and parsing it makes these choices
  one after the other.  Every configuration within the ranges of the options has a
  command line.  Parameters without an option keep their values on any command line.
-/
import CbpSim.Common.Options

set_option autoImplicit false

namespace CbpSim

open CbpSim.Foundation

/-! ## Choices -/

/-- The four numbers of a cache. -/
structure CacheChoice where
  log2Size : Nat
  assoc : Nat
  blocksize : Nat
  latency : Nat

/-- An option with its numbers. -/
inductive Choice where
  | perfectCache
  | perfectBranchPred
  | prefetcher
  | ldstLanes (n : Nat)
  | aluLanes (n : Nat)
  | fetch (width numBranch : Nat) (stopAtIndirect stopAtTaken modelIcache : Bool)
  | icache (log2Size assoc blocksize : Nat)
  | caches (l1 l2 l3 : CacheChoice) (mainMemoryLatency : Nat)
  | epoch (n : Nat)
  | windowSize (n : Nat)
  | loadDependent
  | useful (x : Int)

/-- The numbers fit their variables. -/
structure CacheChoice.Fits (c : CacheChoice) : Prop where
  log2Size : c.log2Size ≤ 30
  assoc : c.assoc < 2 ^ 32
  blocksize : c.blocksize < 2 ^ 32
  latency : c.latency < 2 ^ 32

/-- The numbers of a cache in front of others. -/
def CacheChoice.numbers (c : CacheChoice) (rest : List Int) : List Int :=
  c.log2Size :: c.assoc :: c.blocksize :: c.latency :: rest

/-- Numbers as an argument. -/
def written (l : List Int) : String := String.ofList (decimals l)

namespace Choice

/-- The arguments of the choice. -/
def args : Choice → List String
  | perfectCache => ["-d"]
  | perfectBranchPred => ["-b"]
  | prefetcher => ["-P"]
  | ldstLanes n => ["-M", written [(n : Int)]]
  | aluLanes n => ["-A", written [(n : Int)]]
  | fetch width numBranch indirect taken modelIcache =>
    ["-F", written [(width : Int), (numBranch : Int), (indirect.toNat : Int), (taken.toNat : Int),
      (modelIcache.toNat : Int)]]
  | icache log2Size assoc blocksize =>
    ["-I", written [(log2Size : Int), (assoc : Int), (blocksize : Int)]]
  | caches l1 l2 l3 memory =>
    ["-D", written (l1.numbers (l2.numbers (l3.numbers [(memory : Int)])))]
  | epoch n => ["-E", written [(n : Int)]]
  | windowSize n => ["-w", written [(n : Int)]]
  | loadDependent => ["-l"]
  | useful x => ["-u", written [x]]

/-- What the choice sets. -/
def set : Choice → Settings → Settings
  | perfectCache, c => { c with perfectCache := true }
  | perfectBranchPred, c => { c with perfectBranchPred := true }
  | prefetcher, c => { c with prefetcherEnable := true }
  | ldstLanes n, c => { c with numLdstLanes := n }
  | aluLanes n, c => { c with numAluLanes := n }
  | fetch width numBranch indirect taken modelIcache, c =>
    { c with
      fetchWidth := width
      fetchNumBranch := numBranch
      fetchStopAtIndirect := indirect
      fetchStopAtTaken := taken
      fetchModelIcache := modelIcache }
  | icache log2Size assoc blocksize, c =>
    { c with
      icSize := 2 ^ log2Size
      icAssoc := assoc
      icBlocksize := blocksize }
  | caches l1 l2 l3 memory, c =>
    { c with
      l1Size := 2 ^ l1.log2Size
      l1Assoc := l1.assoc
      l1Blocksize := l1.blocksize
      l1Latency := l1.latency
      l2Size := 2 ^ l2.log2Size
      l2Assoc := l2.assoc
      l2Blocksize := l2.blocksize
      l2Latency := l2.latency
      l3Size := 2 ^ l3.log2Size
      l3Assoc := l3.assoc
      l3Blocksize := l3.blocksize
      l3Latency := l3.latency
      mainMemoryLatency := memory }
  | epoch n, c => { c with printPerEpochStats := true, epochSizeInsts := n }
  | windowSize n, c => { c with windowSize := n }
  | loadDependent, c => { c with loadDependentBranches := true }
  | useful x, c => { c with uIncrment := x }

/-- The numbers of the choice fit their variables. -/
def Fits : Choice → Prop
  | perfectCache | perfectBranchPred | prefetcher | loadDependent => True
  | ldstLanes n | aluLanes n | windowSize n => n < 2 ^ 31
  | fetch width numBranch _ _ _ => width < 2 ^ 32 ∧ numBranch < 2 ^ 32
  | icache log2Size assoc blocksize => log2Size ≤ 30 ∧ assoc < 2 ^ 32 ∧ blocksize < 2 ^ 32
  | caches l1 l2 l3 memory => l1.Fits ∧ l2.Fits ∧ l3.Fits ∧ memory < 2 ^ 32
  | epoch n => n < 2 ^ 64
  | useful x => -2 ^ 31 ≤ x ∧ x < 2 ^ 31

end Choice

/-! ## The numbers of an option -/

section Numbers

variable (v : Undefined)

theorem scanNumber_written (x : Int) : scanNumber (written [x]).toList = some (x, []) := by
  have hone := scanNumber_decimal x (s := []) (by simp [Ended])
  rw [List.append_nil] at hone
  rw [written, String.toList_ofList]
  exact hone

theorem scanNumbers_written (x : Int) (l : List Int) :
    scanNumbers (l.length + 1) (written (x :: l)).toList = some (x :: l) := by
  rw [written, String.toList_ofList, scanNumbers_decimals]

theorem atoi_written {n : Nat} (h : n < 2 ^ 31) : v.atoi (written [(n : Int)]) = n := by
  rw [Undefined.atoi, scanNumber_written, Option.elim_some, v.d_of_lt (by dsimp only; omega)]
  dsimp only
  omega

theorem u_bool (b : Bool) : (v.u (b.toNat : Int) != 0) = b := by
  cases b with
  | false => rfl
  | true => rfl

theorem setFetch_written {width numBranch : Nat} (hwidth : width < 2 ^ 32)
    (hbranch : numBranch < 2 ^ 32) (indirect taken modelIcache : Bool) :
    setFetch v (written [(width : Int), (numBranch : Int), (indirect.toNat : Int),
      (taken.toNat : Int), (modelIcache.toNat : Int)]) =
        .ok (Choice.fetch width numBranch indirect taken modelIcache).set := by
  have hscan : scanNumbers 5 _ = _ := scanNumbers_written (width : Int) [(numBranch : Int),
    (indirect.toNat : Int), (taken.toNat : Int), (modelIcache.toNat : Int)]
  rw [setFetch, hscan]
  refine congrArg Except.ok (funext fun c => ?_)
  simp only [v.u_ofNat hwidth, v.u_ofNat hbranch, u_bool]
  rfl

theorem setIcache_written {log2Size assoc blocksize : Nat} (hsize : log2Size ≤ 30)
    (hassoc : assoc < 2 ^ 32) (hblock : blocksize < 2 ^ 32) :
    setIcache v (written [(log2Size : Int), (assoc : Int), (blocksize : Int)]) =
      .ok (Choice.icache log2Size assoc blocksize).set := by
  have hscan : scanNumbers 3 _ = _ := scanNumbers_written (log2Size : Int)
    [(assoc : Int), (blocksize : Int)]
  rw [setIcache, hscan]
  refine congrArg Except.ok (funext fun c => ?_)
  simp only [v.u_ofNat hassoc, v.u_ofNat hblock, v.u_ofNat (by omega : log2Size < 2 ^ 32),
    v.shiftOne_of_le hsize]
  rfl

theorem setCaches_written {l1 l2 l3 : CacheChoice} {memory : Nat} (h1 : l1.Fits) (h2 : l2.Fits)
    (h3 : l3.Fits) (hmemory : memory < 2 ^ 32) :
    setCaches v (written (l1.numbers (l2.numbers (l3.numbers [(memory : Int)])))) =
      .ok (Choice.caches l1 l2 l3 memory).set := by
  have hscan : scanNumbers 13 _ = _ := scanNumbers_written (l1.log2Size : Int)
    (l1.assoc :: l1.blocksize :: l1.latency :: l2.numbers (l3.numbers [(memory : Int)]))
  have hsize : ∀ l : CacheChoice, l.Fits → v.shiftOne (v.u l.log2Size) = 2 ^ l.log2Size := by
    intro l hl
    have hle := hl.log2Size
    rw [v.u_ofNat (by omega), v.shiftOne_of_le hle]
  rw [setCaches, CacheChoice.numbers, hscan]
  refine congrArg Except.ok (funext fun c => ?_)
  simp only [hsize l1 h1, hsize l2 h2, hsize l3 h3, v.u_ofNat hmemory, v.u_ofNat h1.assoc,
    v.u_ofNat h1.blocksize, v.u_ofNat h1.latency, v.u_ofNat h2.assoc, v.u_ofNat h2.blocksize,
    v.u_ofNat h2.latency, v.u_ofNat h3.assoc, v.u_ofNat h3.blocksize, v.u_ofNat h3.latency]
  rfl

theorem setEpoch_written {n : Nat} (h : n < 2 ^ 64) :
    setEpoch v (written [(n : Int)]) = .ok (Choice.epoch n).set := by
  rw [setEpoch, scanNumber_written]
  refine congrArg Except.ok (funext fun c => ?_)
  simp only [v.lu_ofNat h]
  rfl

theorem setUseful_written {x : Int} (h : -2 ^ 31 ≤ x ∧ x < 2 ^ 31) :
    setUseful v (written [x]) = .ok (Choice.useful x).set := by
  rw [setUseful, scanNumber_written]
  refine congrArg Except.ok (funext fun c => ?_)
  simp only [v.d_of_lt h]
  rfl

end Numbers

/-! ## A command line -/

section Rounds

variable (v : Undefined) (argv0 : String)

theorem parseRounds_flag {arg : String} {set : Settings → Settings} {rest : List String} {i : Nat}
    {c : Settings} (h : optionNamed v arg = some (.flag set)) :
    parseRounds v argv0 (arg :: rest) i c = parseRounds v argv0 rest (i + 1) (set c) := by
  rw [parseRounds, h]

theorem parseRounds_valued {arg value : String} {missing : Option String}
    {read : String → Except String (Settings → Settings)} {set : Settings → Settings}
    {rest : List String} {i : Nat} {c : Settings}
    (h : optionNamed v arg = some (.valued missing read)) (hread : read value = .ok set) :
    parseRounds v argv0 (arg :: value :: rest) i c =
      parseRounds v argv0 rest (i + 2) (set c) := by
  rw [parseRounds, h]
  dsimp only
  rw [hread]

/-- The rounds make a choice and go on. -/
theorem parseRounds_choice {choice : Choice} (hfits : choice.Fits) {rest : List String}
    (hrest : choice = .loadDependent → rest ≠ []) (i : Nat) (c : Settings) :
    parseRounds v argv0 (choice.args ++ rest) i c =
      parseRounds v argv0 rest (i + choice.args.length) (choice.set c) := by
  cases choice with
  | perfectCache => exact parseRounds_flag v argv0 rfl
  | perfectBranchPred => exact parseRounds_flag v argv0 rfl
  | prefetcher => exact parseRounds_flag v argv0 rfl
  | ldstLanes n =>
    refine (parseRounds_valued v argv0 rfl rfl).trans ?_
    rw [atoi_written v hfits]
    rfl
  | aluLanes n =>
    refine (parseRounds_valued v argv0 rfl rfl).trans ?_
    rw [atoi_written v hfits]
    rfl
  | fetch width numBranch indirect taken modelIcache =>
    exact parseRounds_valued v argv0 rfl (setFetch_written v hfits.1 hfits.2 _ _ _)
  | icache log2Size assoc blocksize =>
    exact parseRounds_valued v argv0 rfl (setIcache_written v hfits.1 hfits.2.1 hfits.2.2)
  | caches l1 l2 l3 memory =>
    obtain ⟨h1, h2, h3, hmemory⟩ := hfits
    exact parseRounds_valued v argv0 rfl (setCaches_written v h1 h2 h3 hmemory)
  | epoch n => exact parseRounds_valued v argv0 rfl (setEpoch_written v hfits)
  | windowSize n =>
    refine (parseRounds_valued v argv0 rfl rfl).trans ?_
    rw [atoi_written v hfits]
    rfl
  | loadDependent =>
    have hstep : parseRounds v argv0 ("-l" :: rest) i c = parseRounds v argv0 rest (i + 1)
      (if rest = [] then c else Choice.loadDependent.set c) := rfl
    rw [if_neg (hrest rfl)] at hstep
    exact hstep
  | useful x => exact parseRounds_valued v argv0 rfl (setUseful_written v hfits)

/-- The arguments of a list of choices. -/
def Choice.line (choices : List Choice) : List String := choices.flatMap Choice.args

theorem parseRounds_choices {choices : List Choice} (hfits : ∀ choice ∈ choices, choice.Fits)
    {path : String} (hpath : optionNamed v path = none) (rest : List String) (i : Nat)
    (c : Settings) :
    parseRounds v argv0 (Choice.line choices ++ path :: rest) i c =
      .ok (choices.foldl (fun c choice => choice.set c) c, i + (Choice.line choices).length) := by
  induction choices generalizing i c with
  | nil =>
    rw [Choice.line, List.flatMap_nil, List.nil_append, parseRounds, hpath]
    rfl
  | cons choice choices ih =>
    rw [Choice.line, List.flatMap_cons, List.append_assoc,
      parseRounds_choice v argv0 (hfits choice List.mem_cons_self) (fun _ => by simp)]
    rw [← Choice.line, ih (fun choice h => hfits choice (List.mem_cons_of_mem _ h)),
      List.foldl_cons, List.length_append, Nat.add_assoc]

/-- **A command line makes its choices**, the last of two for one parameter, and ends at the
trace. -/
theorem parseargs_choices {choices : List Choice} (hfits : ∀ choice ∈ choices, choice.Fits)
    {path : String} (hpath : optionNamed v path = none) (rest : List String) :
    parseargs v argv0 (Choice.line choices ++ path :: rest) =
      .ok (choices.foldl (fun c choice => choice.set c) {}, (Choice.line choices).length + 1) := by
  rw [parseargs, parseRounds_choices v argv0 hfits hpath, Nat.add_comm]

/-- An option with a value. -/
inductive ValueOption where
  | ldstLanes
  | aluLanes
  | fetch
  | icache
  | caches
  | epoch
  | windowSize
  | useful
  deriving DecidableEq, Repr

namespace ValueOption

/-- The option. -/
def arg : ValueOption → String
  | ldstLanes => "-M"
  | aluLanes => "-A"
  | fetch => "-F"
  | icache => "-I"
  | caches => "-D"
  | epoch => "-E"
  | windowSize => "-w"
  | useful => "-u"

/-- What is printed where the value is missing. -/
def missing (argv0 : String) : ValueOption → String
  | ldstLanes => "Usage: missing # load/store lanes: -M <num_ldst_lanes>.\n"
  | aluLanes => "Usage: missing # alu lanes: -A <num_alu_lanes>.\n"
  | fetch => usageFetch
  | icache => "Usage: missing I$ parameters: " ++ icacheArguments
  | caches => "Usage: missing L1$, L2$, and L3$ parameters: " ++ cacheArguments
  | epoch => usageEpoch
  | windowSize => "Usage: missing window size: -w <window_size>.\n"
  | useful => usage argv0

/-- How many numbers are scanned from the value, and what is printed if they are not all
there; `atoi` takes any value. -/
def scanned : ValueOption → Option (Nat × String)
  | ldstLanes | aluLanes | windowSize => none
  | fetch => some (5, usageFetch)
  | icache => some (3, "Usage: missing one or more I$ parameters: " ++ icacheArguments)
  | caches =>
    some (13, "Usage: missing one or more L1$, L2$, and L3$ parameters: " ++ cacheArguments)
  | epoch => some (1, usageEpoch)
  | useful => some (1, usageUseful)

end ValueOption

/-- The first mistake of a command line, and the arguments that it is in. -/
inductive Mistake where
  | noTrace
  | noValue (option : ValueOption)
  | notScanned (option : ValueOption) (value : String) (rest : List String)

namespace Mistake

/-- The arguments from the mistake on. -/
def args : Mistake → List String
  | noTrace => []
  | noValue option => [option.arg]
  | notScanned option value rest => option.arg :: value :: rest

/-- The text of the mistake; `none` where it is no mistake. -/
def text (argv0 : String) : Mistake → Option String
  | noTrace => some (usage argv0)
  | noValue option => some (option.missing argv0)
  | notScanned option value _ => do
    let (numbers, text) ← option.scanned
    if scanNumbers numbers value.toList = none then some text else none

end Mistake

end Rounds

/-- Numbers that a variable cannot hold become 0. -/
def noneUndefined : Undefined := ⟨fun _ => 0, fun _ => 0, fun _ => 0, fun _ => 0⟩

/-- The window is given twice. -/
theorem parseargs_choices_twice :
    parseargs noneUndefined "sim" (Choice.line
        [.windowSize 512, .fetch 16 16 true true true, .windowSize 256] ++ ["t.gz"]) =
      .ok ({ windowSize := 256 }, 7) :=
  parseargs_choices noneUndefined "sim" (by simp [Choice.Fits]) rfl []

/-! ## Parameters without an option -/

/-- The parameters without an option have the values that they begin with, and the
prefetcher, whose option turns it on, is on. -/
structure Settings.Kept (c : Settings) : Prop where
  vpEnable : c.vpEnable = false
  vpPerfect : c.vpPerfect = false
  vpTrack : c.vpTrack = .all
  perfectIndirectPred : c.perfectIndirectPred = true
  pipelineFillLatency : c.pipelineFillLatency = 10
  prefetcherEnable : c.prefetcherEnable = true
  writeAllocate : c.writeAllocate = true
  defaultExecLatency : c.defaultExecLatency = 1
  fpExecLatency : c.fpExecLatency = 3
  slowAluExecLatency : c.slowAluExecLatency = 4
  dqLatency : c.dqLatency = 2
  mispReductionPerc : c.mispReductionPerc = 0

/-- The parameters stay as they are. -/
def Keeps (set : Settings → Settings) : Prop := ∀ c, c.Kept → (set c).Kept

/-- The text shows the option with its value. -/
def Shows (arg text : String) : Prop := (arg ++ " <").toList <:+: text.toList

/-- A value sets parameters with an option, or the program ends with the text. -/
def Reading (read : String → Except String (Settings → Settings)) (text : String) : Prop :=
  ∀ value, (∃ set, read value = .ok set ∧ Keeps set) ∨ read value = .error text

/-- The handler sets parameters with an option, and its texts show the option. -/
def Handler.Sound (arg : String) : Handler → Prop
  | .flag set | .beforeOther set => Keeps set
  | .valued missing read => (∀ text ∈ missing, Shows arg text) ∧ ∃ text, Shows arg text ∧
      Reading read text

section Kept

variable {v : Undefined}

theorem setFetch_reading : Reading (setFetch v) usageFetch := by
  intro value
  unfold setFetch
  split
  · exact Or.inl ⟨_, rfl, fun c hc => { hc with }⟩
  · exact Or.inr rfl

theorem setIcache_reading :
    Reading (setIcache v) ("Usage: missing one or more I$ parameters: " ++ icacheArguments) := by
  intro value
  unfold setIcache
  split
  · exact Or.inl ⟨_, rfl, fun c hc => { hc with }⟩
  · exact Or.inr rfl

theorem setCaches_reading :
    Reading (setCaches v)
      ("Usage: missing one or more L1$, L2$, and L3$ parameters: " ++ cacheArguments) := by
  intro value
  unfold setCaches
  split
  · exact Or.inl ⟨_, rfl, fun c hc => { hc with }⟩
  · exact Or.inr rfl

theorem setEpoch_reading : Reading (setEpoch v) usageEpoch := by
  intro value
  unfold setEpoch
  split
  · exact Or.inl ⟨_, rfl, fun c hc => { hc with }⟩
  · exact Or.inr rfl

theorem setUseful_reading : Reading (setUseful v) usageUseful := by
  intro value
  unfold setUseful
  split
  · exact Or.inl ⟨_, rfl, fun c hc => { hc with }⟩
  · exact Or.inr rfl

/-- `atoi` reads any value. -/
theorem sound_atoi {arg text : String} (set : Nat → Settings → Settings)
    (hset : ∀ n, Keeps (set n)) (hshows : Shows arg text) :
    (Handler.valued (some text) fun value => .ok (set (v.atoi value))).Sound arg := by
  refine ⟨?_, text, hshows, fun value => Or.inl ⟨_, rfl, hset _⟩⟩
  rintro _ ⟨⟩
  exact hshows

theorem sound_valued {arg missing text : String}
    {read : String → Except String (Settings → Settings)} (hmissing : Shows arg missing)
    (htext : Shows arg text) (hread : Reading read text) :
    (Handler.valued (some missing) read).Sound arg := by
  refine ⟨?_, text, htext, hread⟩
  rintro _ ⟨⟩
  exact hmissing

/-- **Every option is sound.** -/
theorem optionNamed_sound {arg : String} {handler : Handler}
    (h : optionNamed v arg = some handler) : handler.Sound arg := by
  unfold optionNamed at h
  split at h
  all_goals cases h
  case h_1 => exact fun c hc => { hc with }
  case h_2 => exact fun c hc => { hc with }
  case h_3 => exact fun c hc => { hc with prefetcherEnable := rfl }
  case h_4 =>
    exact sound_atoi (fun n => (Choice.ldstLanes n).set) (fun n c hc => { hc with })
      (by unfold Shows; decide +kernel)
  case h_5 =>
    exact sound_atoi (fun n => (Choice.aluLanes n).set) (fun n c hc => { hc with })
      (by unfold Shows; decide +kernel)
  case h_6 =>
    have hshows : Shows "-F" usageFetch := by unfold Shows; decide +kernel
    exact sound_valued hshows hshows setFetch_reading
  case h_7 =>
    exact sound_valued (by unfold Shows; decide +kernel) (by unfold Shows; decide +kernel)
      setIcache_reading
  case h_8 =>
    exact sound_valued (by unfold Shows; decide +kernel) (by unfold Shows; decide +kernel)
      setCaches_reading
  case h_9 =>
    have hshows : Shows "-E" usageEpoch := by unfold Shows; decide +kernel
    exact sound_valued hshows hshows setEpoch_reading
  case h_10 =>
    exact sound_atoi (fun n => (Choice.windowSize n).set) (fun n c hc => { hc with })
      (by unfold Shows; decide +kernel)
  case h_11 => exact fun c hc => { hc with }
  case h_12 =>
    exact ⟨fun _ h => absurd h (by simp), usageUseful, by unfold Shows; decide +kernel,
      setUseful_reading⟩

/-- The rounds keep the parameters, and end at an argument that is no option. -/
theorem parseRounds_kept {argv0 : String} {c c' : Settings} {i j : Nat} {args : List String}
    (hc : c.Kept) (h : parseRounds v argv0 args i c = .ok (c', j)) :
    c'.Kept ∧ ∃ options path rest, args = options ++ path :: rest ∧ j = i + options.length ∧
      optionNamed v path = none := by
  fun_induction parseRounds v argv0 args i c with
  | case1 => cases h
  | case2 arg rest i c hnone =>
    cases h
    exact ⟨hc, [], arg, rest, rfl, rfl, hnone⟩
  | case3 arg rest i c set hflag ih =>
    obtain ⟨hkept, options, path, rest, rfl, rfl, hpath⟩ := ih (optionNamed_sound hflag c hc) h
    exact ⟨hkept, arg :: options, path, rest, rfl, by simp only [List.length_cons]; omega, hpath⟩
  | case4 arg rest i c set hflag ih =>
    have hset : (if rest = [] then c else set c).Kept := by
      split
      · exact hc
      · exact optionNamed_sound hflag c hc
    obtain ⟨hkept, options, path, rest, rfl, rfl, hpath⟩ := ih hset h
    exact ⟨hkept, arg :: options, path, rest, rfl, by simp only [List.length_cons]; omega, hpath⟩
  | case5 => cases h
  | case6 => cases h
  | case7 arg i c missing read hvalued value rest set hread ih =>
    obtain ⟨-, text, -, hreading⟩ := optionNamed_sound hvalued
    have hset : Keeps set := by
      rcases hreading value with ⟨set', hok, hkeeps⟩ | herror
      · obtain rfl : set = set' := Except.ok.inj (hread.symm.trans hok)
        exact hkeeps
      · cases hread.symm.trans herror
    obtain ⟨hkept, options, path, rest, rfl, rfl, hpath⟩ := ih (hset c hc) h
    exact ⟨hkept, arg :: value :: options, path, rest, rfl,
      by simp only [List.length_cons]; omega, hpath⟩

/-- **No command line changes a parameter without an option**, and the trace that it gives
is one of the arguments. -/
theorem parseargs_kept {argv0 : String} {c : Settings} {i : Nat} {args : List String}
    (h : parseargs v argv0 args = .ok (c, i)) :
    c.Kept ∧ ∃ path, (argv0 :: args)[i]? = some path ∧ optionNamed v path = none := by
  have hinit : ({} : Settings).Kept := ⟨rfl, rfl, rfl, rfl, rfl, rfl, rfl, rfl, rfl, rfl, rfl, rfl⟩
  obtain ⟨hkept, options, path, rest, rfl, rfl, hpath⟩ := parseRounds_kept hinit h
  refine ⟨hkept, path, ?_, hpath⟩
  rw [Nat.add_comm, List.getElem?_cons_succ, List.getElem?_append_right le_rfl, Nat.sub_self]
  rfl

theorem parseargs_kept_prefetcher :
    (⟨{ numLdstLanes := 2 }, false⟩ : Settings).Kept ∧
      ∃ path, ["sim", "-P", "-M", "2", "t.gz"][4]? = some path ∧
        optionNamed noneUndefined path = none :=
  parseargs_kept (show parseargs noneUndefined "sim" ["-P", "-M", "2", "t.gz"] =
    .ok (⟨{ numLdstLanes := 2 }, false⟩, 4) by decide +kernel)

end Kept

/-! ## A command line for each configuration -/

attribute [ext] Config Settings

/-- The parameters are within the ranges of the options. -/
structure Settings.Settable (c : Settings) : Prop where
  kept : c.Kept
  windowSize : c.windowSize < 2 ^ 31
  numLdstLanes : c.numLdstLanes < 2 ^ 31
  numAluLanes : c.numAluLanes < 2 ^ 31
  fetchWidth : c.fetchWidth < 2 ^ 32
  fetchNumBranch : c.fetchNumBranch < 2 ^ 32
  icSize : ∃ k ≤ 30, c.icSize = 2 ^ k
  ic : c.icAssoc < 2 ^ 32 ∧ c.icBlocksize < 2 ^ 32
  l1Size : ∃ k ≤ 30, c.l1Size = 2 ^ k
  l1 : c.l1Assoc < 2 ^ 32 ∧ c.l1Blocksize < 2 ^ 32 ∧ c.l1Latency < 2 ^ 32
  l2Size : ∃ k ≤ 30, c.l2Size = 2 ^ k
  l2 : c.l2Assoc < 2 ^ 32 ∧ c.l2Blocksize < 2 ^ 32 ∧ c.l2Latency < 2 ^ 32
  l3Size : ∃ k ≤ 30, c.l3Size = 2 ^ k
  l3 : c.l3Assoc < 2 ^ 32 ∧ c.l3Blocksize < 2 ^ 32 ∧ c.l3Latency < 2 ^ 32
  mainMemoryLatency : c.mainMemoryLatency < 2 ^ 32
  epochSizeInsts : c.epochSizeInsts < 2 ^ 64
  noEpochSize : c.printPerEpochStats = false → c.epochSizeInsts = 1000000
  uIncrment : -2 ^ 31 ≤ c.uIncrment ∧ c.uIncrment < 2 ^ 31

namespace Settings

/-- The flags that are set. -/
def flags (c : Settings) : List Choice :=
  (if c.perfectCache then [.perfectCache] else []) ++
    (if c.perfectBranchPred then [.perfectBranchPred] else []) ++
    (if c.loadDependentBranches then [.loadDependent] else []) ++
    (if c.printPerEpochStats then [.epoch c.epochSizeInsts] else [])

/-- The other options. -/
def values (c : Settings) : List Choice :=
  [.ldstLanes c.numLdstLanes, .aluLanes c.numAluLanes, .windowSize c.windowSize,
    .fetch c.fetchWidth c.fetchNumBranch c.fetchStopAtIndirect c.fetchStopAtTaken
      c.fetchModelIcache,
    .icache c.icSize.log2 c.icAssoc c.icBlocksize,
    .caches ⟨c.l1Size.log2, c.l1Assoc, c.l1Blocksize, c.l1Latency⟩
      ⟨c.l2Size.log2, c.l2Assoc, c.l2Blocksize, c.l2Latency⟩
      ⟨c.l3Size.log2, c.l3Assoc, c.l3Blocksize, c.l3Latency⟩ c.mainMemoryLatency,
    .useful c.uIncrment]

variable {c : Settings}

theorem Settable.flags_fits (h : c.Settable) : ∀ choice ∈ c.flags, choice.Fits := by
  intro choice hmem
  simp only [flags, List.mem_append, List.mem_ite_nil_right, List.mem_singleton] at hmem
  rcases hmem with ((⟨-, rfl⟩ | ⟨-, rfl⟩) | ⟨-, rfl⟩) | ⟨-, rfl⟩
  · trivial
  · trivial
  · trivial
  · exact h.epochSizeInsts

theorem log2_le {size : Nat} (h : ∃ k ≤ 30, size = 2 ^ k) : size.log2 ≤ 30 ∧ 2 ^ size.log2 = size := by
  obtain ⟨k, hk, rfl⟩ := h
  rw [Nat.log2_two_pow]
  exact ⟨hk, rfl⟩

theorem Settable.values_fits (h : c.Settable) : ∀ choice ∈ c.values, choice.Fits := by
  simp only [values, List.forall_mem_cons]
  refine ⟨h.numLdstLanes, h.numAluLanes, h.windowSize, ⟨h.fetchWidth, h.fetchNumBranch⟩,
    ⟨(log2_le h.icSize).1, h.ic⟩, ⟨?_, ?_, ?_, h.mainMemoryLatency⟩, h.uIncrment, by simp⟩
  · exact ⟨(log2_le h.l1Size).1, h.l1.1, h.l1.2.1, h.l1.2.2⟩
  · exact ⟨(log2_le h.l2Size).1, h.l2.1, h.l2.2.1, h.l2.2.2⟩
  · exact ⟨(log2_le h.l3Size).1, h.l3.1, h.l3.2.1, h.l3.2.2⟩

theorem Settable.foldl_flags (h : c.Settable) :
    c.flags.foldl (fun c choice => choice.set c) {} =
      { perfectCache := c.perfectCache, perfectBranchPred := c.perfectBranchPred
        loadDependentBranches := c.loadDependentBranches
        printPerEpochStats := c.printPerEpochStats, epochSizeInsts := c.epochSizeInsts } := by
  have hepoch := h.noEpochSize
  unfold flags
  generalize c.perfectCache = cache, c.perfectBranchPred = branch, c.loadDependentBranches = load,
    c.printPerEpochStats = print, c.epochSizeInsts = epoch at hepoch
  cases print with
  | false =>
    rw [hepoch rfl]
    cases cache <;> cases branch <;> cases load <;> rfl
  | true => cases cache <;> cases branch <;> cases load <;> rfl

theorem Settable.foldl_choices (h : c.Settable) :
    (c.flags ++ c.values).foldl (fun c choice => choice.set c) {} = c := by
  have kept := h.kept
  rw [List.foldl_append, h.foldl_flags]
  simp only [values, List.foldl_cons, List.foldl_nil, Choice.set, (log2_le h.icSize).2,
    (log2_le h.l1Size).2, (log2_le h.l2Size).2, (log2_le h.l3Size).2]
  apply Settings.ext
  case vpEnable => exact kept.vpEnable.symm
  case vpPerfect => exact kept.vpPerfect.symm
  case vpTrack => exact kept.vpTrack.symm
  case perfectIndirectPred => exact kept.perfectIndirectPred.symm
  case pipelineFillLatency => exact kept.pipelineFillLatency.symm
  case prefetcherEnable => exact kept.prefetcherEnable.symm
  case writeAllocate => exact kept.writeAllocate.symm
  case defaultExecLatency => exact kept.defaultExecLatency.symm
  case fpExecLatency => exact kept.fpExecLatency.symm
  case slowAluExecLatency => exact kept.slowAluExecLatency.symm
  case dqLatency => exact kept.dqLatency.symm
  case mispReductionPerc => exact kept.mispReductionPerc.symm
  all_goals rfl

end Settings

/-- **Every configuration within the ranges has a command line** that gives it. -/
theorem parseargs_settings (v : Undefined) (argv0 : String) {c : Settings} (h : c.Settable)
    {path : String} (hpath : optionNamed v path = none) (rest : List String) :
    parseargs v argv0 (Choice.line (c.flags ++ c.values) ++ path :: rest) =
      .ok (c, (Choice.line (c.flags ++ c.values)).length + 1) := by
  have hfits : ∀ choice ∈ c.flags ++ c.values, choice.Fits := by
    intro choice hmem
    exact (List.mem_append.mp hmem).elim (h.flags_fits choice) (h.values_fits choice)
  rw [parseargs, parseRounds_choices v argv0 hfits hpath, h.foldl_choices, Nat.add_comm]

/-- A small machine with its epochs printed. -/
def smallMachine : Settings where
  windowSize := 64
  l1Size := 2 ^ 14
  perfectCache := true
  printPerEpochStats := true
  epochSizeInsts := 5000
  uIncrment := -1

theorem parseargs_settings_smallMachine :
    parseargs noneUndefined "sim"
        (Choice.line (smallMachine.flags ++ smallMachine.values) ++ ["t.gz"]) =
      .ok (smallMachine, 18) := by
  have hsettable : smallMachine.Settable := {
    kept := ⟨rfl, rfl, rfl, rfl, rfl, rfl, rfl, rfl, rfl, rfl, rfl, rfl⟩
    windowSize := by decide
    numLdstLanes := by decide
    numAluLanes := by decide
    fetchWidth := by decide
    fetchNumBranch := by decide
    icSize := ⟨17, by decide, rfl⟩
    ic := by decide
    l1Size := ⟨14, by decide, rfl⟩
    l1 := by decide
    l2Size := ⟨22, by decide, rfl⟩
    l2 := by decide
    l3Size := ⟨25, by decide, rfl⟩
    l3 := by decide
    mainMemoryLatency := by decide
    epochSizeInsts := by decide
    noEpochSize := fun h => absurd h (by decide)
    uIncrment := by decide }
  exact parseargs_settings noneUndefined "sim" hsettable rfl []

end CbpSim
