/-
Scintx.Workers.EnvConfig — the configuration of the worker pools, from
the environment (`internal/workers/dispatcher.go`).

Three settings make two sizes, the number of workers and the number of
jobs that are let in. Each setting is checked when it is read; the sums
that are made of them are not. An `int` has 64 bits, so a sum may come
out negative, and `newLocalPool` makes a channel of that capacity. It
does so too where the sum is right but larger than any channel can be.
`config_sized_iff` says for which settings the sizes are in order, and
for which there is a pool.

The number of CPUs is a parameter. `strconv.Atoi` reads what `ParseInt`
reads, and the text of its error is not used.
-/
import Scintx.Api.Types
import Scintx.Lib.Text
import Scintx.Workers.LocalPoolTheorems

namespace Scintx.Workers

open Scintx.Lib Scintx.Api

/-! ## Reading the settings -/

/-- The variables `ConfigFromEnv` reads; an unset one is empty. -/
structure WorkerEnv where
  /-- `SCINTX_WORKER_MODE`. -/
  mode : String := ""
  /-- `SCINTX_MAX_INFLIGHT`. -/
  maxInflight : String := ""
  /-- `SCINTX_WORKERS`. -/
  workers : String := ""
  /-- `SCINTX_JOB_QUEUE_SIZE`. -/
  queueSize : String := ""
  /-- `SCINTX_JOB_LEASE`. -/
  lease : String := ""
  /-- `SCINTX_JOB_POLL`. -/
  poll : String := ""
  /-- `SCINTX_MAX_PENDING_JOBS`. -/
  maxPending : String := ""
  /-- `SCINTX_JOB_MAX_ATTEMPTS`. -/
  maxAttempts : String := ""
  /-- `SCINTX_WORKER_ID`. -/
  workerID : String := ""

/-- `workers.Config` with all its fields. -/
structure FullConfig where
  mode : String
  sizes : Config
  lease : Duration := 0
  pollInterval : Duration := 0
  maxPending : Int := 0
  maxAttempts : Int := 0
  workerID : String := ""
  deriving DecidableEq, Repr

/-- Twice the number of CPUs, but between 4 and 8. -/
def defaultWorkers (numCPU : Int) : Int :=
  let n := wrapInt64 (numCPU * 2)
  let n := if n < 4 then 4 else n
  if n > 8 then 8 else n

/-- The number of workers before it is fitted to the limit. -/
def chosenWorkers (numCPU : Int) (workersN : Option Int) : Int :=
  match workersN with
  | none => defaultWorkers numCPU
  | some n => if n > 0 then n else defaultWorkers numCPU

/-- The sizes, of the settings that are set. -/
def sizesFrom (numCPU : Int) (maxN workersN queueN : Option Int) : Config :=
  if maxN = some 0 then { maxInflight := 0, workers := 0 }
  else if workersN = some 0 ∧ maxN = none ∧ queueN = none then { maxInflight := 0, workers := 0 }
  else
    let workers := chosenWorkers numCPU workersN
    let cfg : Config :=
      match queueN, maxN with
      | some n, _ => { workers := workers, maxInflight := wrapInt64 (workers + n) }
      | none, some n =>
        { maxInflight := n, workers := if workers > n then n else workers }
      | none, none =>
        { workers := workers
          maxInflight := wrapInt64 (workers + max (wrapInt64 (workers * 2)) 64) }
    if cfg.workers < 1 ∧ cfg.maxInflight > 0 then { cfg with workers := 1 } else cfg

section Given

variable [GoStd]

/-- A whole number that is at least `low`, or none if it is not set. -/
def countSetting (name : String) (low : Int) (raw : String) : Except String (Option Int) :=
  let bad : Except String (Option Int) :=
    .error (name ++ ": want integer >= " ++ toString low ++ ", got " ++ quote raw)
  if raw = "" then .ok none
  else
    match parseInt64 raw.toList with
    | .error _ => bad
    | .ok n => if n < low then bad else .ok (some n)

def durationSetting (name raw : String) : Except String (Option Duration) :=
  let bad : Except String (Option Duration) :=
    .error (name ++ ": want positive duration, got " ++ quote raw)
  if raw = "" then .ok none
  else
    match GoStd.parseDuration raw with
    | .error _ => bad
    | .ok d => if d ≤ 0 then bad else .ok (some d)

def configFromEnv (numCPU : Int) (env : WorkerEnv) : Except String FullConfig := do
  let mode := toLower (trimSpace env.mode)
  let maxN ← countSetting "SCINTX_MAX_INFLIGHT" 0 env.maxInflight
  let workersN ← countSetting "SCINTX_WORKERS" 0 env.workers
  let queueN ← countSetting "SCINTX_JOB_QUEUE_SIZE" 0 env.queueSize
  let lease ← durationSetting "SCINTX_JOB_LEASE" env.lease
  let poll ← durationSetting "SCINTX_JOB_POLL" env.poll
  let maxPending ← countSetting "SCINTX_MAX_PENDING_JOBS" 1 env.maxPending
  let maxAttempts ← countSetting "SCINTX_JOB_MAX_ATTEMPTS" 1 env.maxAttempts
  return { mode := if mode = "" then "local" else mode
           sizes := sizesFrom numCPU maxN workersN queueN
           lease := lease.getD 0
           pollInterval := poll.getD 0
           maxPending := maxPending.getD 0
           maxAttempts := maxAttempts.getD 0
           workerID := trimSpace env.workerID }

/-- The number a setting stands for. -/
def settingValue (raw : String) : Option Int :=
  if raw = "" then none else (parseInt64 raw.toList).toOption

/-- A setting that is not negative, where there is one. -/
def Counts (v : Option Int) : Prop :=
  ∀ n, v = some n → 0 ≤ n ∧ n ≤ maxInt64

omit [GoStd] in
theorem Counts.pos {n : Int} (h : Counts (some n)) (hzero : (some n : Option Int) ≠ some 0) :
    1 ≤ n := by
  have hcount := h n rfl
  have hne : n ≠ 0 := fun heq => hzero (heq ▸ rfl)
  omega

theorem countSetting_spec {name raw : String} {v : Option Int}
    (h : countSetting name 0 raw = .ok v) : v = settingValue raw ∧ Counts v := by
  unfold countSetting at h
  split at h
  · rename_i hempty
    cases h
    refine ⟨(if_pos hempty).symm, fun n hn => ?_⟩
    cases hn
  · rename_i hset
    split at h
    · cases h
    · rename_i n hn
      split at h
      · cases h
      · rename_i hlow
        cases h
        refine ⟨?_, fun m hm => ?_⟩
        · rw [settingValue, if_neg hset, hn]
          rfl
        · cases hm
          exact ⟨not_lt.mp hlow, (parseInt64_bounds hn).2⟩

/-- The sizes of an accepted configuration are those of its settings. -/
theorem configFromEnv_spec {numCPU : Int} {env : WorkerEnv} {cfg : FullConfig}
    (h : configFromEnv numCPU env = .ok cfg) :
    Counts (settingValue env.maxInflight) ∧ Counts (settingValue env.workers) ∧
      Counts (settingValue env.queueSize) ∧
      cfg.sizes = sizesFrom numCPU (settingValue env.maxInflight) (settingValue env.workers)
        (settingValue env.queueSize) := by
  obtain ⟨maxN, hmax, h⟩ := bind_eq_ok h
  obtain ⟨workersN, hworkers, h⟩ := bind_eq_ok h
  obtain ⟨queueN, hqueue, h⟩ := bind_eq_ok h
  obtain ⟨lease, -, h⟩ := bind_eq_ok h
  obtain ⟨poll, -, h⟩ := bind_eq_ok h
  obtain ⟨maxPending, -, h⟩ := bind_eq_ok h
  obtain ⟨maxAttempts, -, h⟩ := bind_eq_ok h
  obtain rfl := Except.ok.inj h
  obtain ⟨rfl, hmaxN⟩ := countSetting_spec hmax
  obtain ⟨rfl, hworkersN⟩ := countSetting_spec hworkers
  obtain ⟨rfl, hqueueN⟩ := countSetting_spec hqueue
  exact ⟨hmaxN, hworkersN, hqueueN, rfl⟩

end Given

/-! ## The sizes, setting by setting -/

theorem defaultWorkers_bounds (numCPU : Int) :
    4 ≤ defaultWorkers numCPU ∧ defaultWorkers numCPU ≤ 8 := by
  simp only [defaultWorkers]
  split <;> split <;> omega

theorem chosenWorkers_bounds (numCPU : Int) {workersN : Option Int} (h : Counts workersN) :
    1 ≤ chosenWorkers numCPU workersN ∧ chosenWorkers numCPU workersN ≤ maxInt64 := by
  have hdefault := defaultWorkers_bounds numCPU
  have hmax : maxInt64 = 9223372036854775807 := rfl
  unfold chosenWorkers
  split
  · omega
  · rename_i n
    have hn := h n rfl
    split <;> omega

section Branches

variable {numCPU : Int} {maxN workersN : Option Int}

/-- The queue size decides, also beside a limit. -/
theorem sizesFrom_queue (hmax : maxN ≠ some 0) (hworkers : Counts workersN) (q : Int) :
    sizesFrom numCPU maxN workersN (some q) =
      { workers := chosenWorkers numCPU workersN
        maxInflight := wrapInt64 (chosenWorkers numCPU workersN + q) } := by
  have hone := (chosenWorkers_bounds numCPU hworkers).1
  simp only [sizesFrom, if_neg hmax, reduceCtorEq, and_false, if_false]
  rw [if_neg fun hlow => absurd hlow.1 (not_lt.mpr hone)]

/-- A limit alone: the workers are fitted to it. -/
theorem sizesFrom_max {m : Int} (hm : 1 ≤ m) (hworkers : Counts workersN) :
    sizesFrom numCPU (some m) workersN none =
      { workers := min (chosenWorkers numCPU workersN) m, maxInflight := m } := by
  have hone := (chosenWorkers_bounds numCPU hworkers).1
  have hzero : (some m : Option Int) ≠ some 0 := fun heq => by
    have := Option.some.inj heq
    omega
  have hmin : (if chosenWorkers numCPU workersN > m then m else chosenWorkers numCPU workersN) =
      min (chosenWorkers numCPU workersN) m := by
    omega
  simp only [sizesFrom, if_neg hzero, reduceCtorEq, false_and, and_false, if_false, hmin]
  rw [if_neg]
  intro hlow
  have := hlow.1
  omega

/-- The workers alone, or nothing. -/
theorem sizesFrom_alone (hzero : workersN ≠ some 0) (hworkers : Counts workersN) :
    sizesFrom numCPU none workersN none =
      { workers := chosenWorkers numCPU workersN
        maxInflight := wrapInt64 (chosenWorkers numCPU workersN +
          max (wrapInt64 (chosenWorkers numCPU workersN * 2)) 64) } := by
  have hone := (chosenWorkers_bounds numCPU hworkers).1
  simp only [sizesFrom, reduceCtorEq, if_false, hzero, false_and]
  rw [if_neg fun hlow => absurd hlow.1 (not_lt.mpr hone)]

end Branches

/-! ## Sizes in order -/

/-- Unlimited, or at least one worker and no more workers than jobs. -/
def Config.Sized (c : Config) : Prop :=
  (c.maxInflight = 0 ∧ c.workers = 0) ∨ (1 ≤ c.workers ∧ c.workers ≤ c.maxInflight)

instance (c : Config) : Decidable c.Sized :=
  inferInstanceAs (Decidable (_ ∨ _))

/-- `w` workers and no other setting: twice as many jobs may wait, but at
least 64. Where doubling `w` overflows it is 64 as well. -/
def AloneFits (bound w : Int) : Prop :=
  (2 * w ≤ maxInt64 ∧ w + max (2 * w) 64 ≤ bound) ∨ (maxInt64 < 2 * w ∧ w + 64 ≤ bound)

/-- The limit that is made of the settings is at most `bound`, with the
sums taken over the integers: of the workers and a queue size, of a
limit that is set, or of the workers alone. -/
structure SizesFit (bound numCPU : Int) (maxN workersN queueN : Option Int) : Prop where
  queue : maxN ≠ some 0 → ∀ q, queueN = some q → chosenWorkers numCPU workersN + q ≤ bound
  limit : queueN = none → ∀ m, maxN = some m → m ≤ bound
  alone : maxN = none → queueN = none → workersN ≠ some 0 →
    AloneFits bound (chosenWorkers numCPU workersN)

/-- What `fits` says of a bound: the limit is not negative and within it.
A limit that is not negative is in order. -/
structure Config.LimitedBy (c : Config) (fits : Int → Prop) : Prop where
  limit : ∀ bound, 0 ≤ bound → bound ≤ maxInt64 →
    (fits bound ↔ 0 ≤ c.maxInflight ∧ c.maxInflight ≤ bound)
  sized : 0 ≤ c.maxInflight → c.Sized
  int64 : c.maxInflight ≤ maxInt64

theorem Config.Sized.nonneg {c : Config} (h : c.Sized) : 0 ≤ c.maxInflight := by
  unfold Config.Sized at h
  omega

theorem Config.LimitedBy.sized_iff {c : Config} {fits : Int → Prop} (h : c.LimitedBy fits) :
    c.Sized ↔ fits maxInt64 := by
  rw [h.limit maxInt64 (by decide) le_rfl]
  exact ⟨fun hsized => ⟨hsized.nonneg, h.int64⟩, fun hlimit => h.sized hlimit.1⟩

/-- A configuration of which other settings say the same. -/
theorem Config.LimitedBy.of_iff {c : Config} {fits fits' : Int → Prop} (h : c.LimitedBy fits)
    (hiff : ∀ bound, 0 ≤ bound → (fits' bound ↔ fits bound)) : c.LimitedBy fits' where
  limit bound hnonneg hbound := (hiff bound hnonneg).trans (h.limit bound hnonneg hbound)
  sized := h.sized
  int64 := h.int64

theorem limitedBy_unlimited :
    Config.LimitedBy { maxInflight := 0, workers := 0 } fun _ => True where
  limit bound hnonneg _ := ⟨fun _ => ⟨le_rfl, hnonneg⟩, fun _ => trivial⟩
  sized _ := .inl ⟨rfl, rfl⟩
  int64 := by decide

/-- A sum of two sizes is exact or negative. -/
theorem wrapInt64_sum {a b : Int} (ha : 0 ≤ a ∧ a ≤ maxInt64) (hb : 0 ≤ b ∧ b ≤ maxInt64) :
    (a + b ≤ maxInt64 → wrapInt64 (a + b) = a + b) ∧
      (maxInt64 < a + b → wrapInt64 (a + b) < 0) := by
  have hmin : minInt64 ≤ 0 := by decide
  exact ⟨fun hle => wrapInt64_of_bounds (by omega) hle, fun hgt => wrapInt64_neg hgt (by omega)⟩

/-- Some workers, and `waiting` more jobs. -/
theorem limitedBy_sum {w waiting : Int} (hw : 1 ≤ w ∧ w ≤ maxInt64)
    (hwaiting : 0 ≤ waiting ∧ waiting ≤ maxInt64) :
    Config.LimitedBy { workers := w, maxInflight := wrapInt64 (w + waiting) }
      fun bound => w + waiting ≤ bound := by
  obtain ⟨hexact, hneg⟩ := @wrapInt64_sum w waiting (by omega) hwaiting
  rcases le_or_gt (w + waiting) maxInt64 with hle | hgt
  · rw [hexact hle]
    refine ⟨fun bound _ _ => ?_, fun _ => .inr ⟨hw.1, ?_⟩, hle⟩ <;> simp only <;> omega
  · have hover := hneg hgt
    refine ⟨fun bound _ _ => ?_, fun hnonneg => absurd hnonneg (not_le.mpr hover), ?_⟩
    · simp only
      omega
    · exact (wrapInt64_bounds _).2

/-- The room that is made beside `w` workers. -/
theorem waitingRoom_eq {w : Int} (hw : 1 ≤ w ∧ w ≤ maxInt64) :
    max (wrapInt64 (w * 2)) 64 = if 2 * w ≤ maxInt64 then max (2 * w) 64 else 64 := by
  have hmin : minInt64 ≤ 0 := by decide
  rw [Int.mul_comm w 2]
  split
  · rename_i hfits
    rw [wrapInt64_of_bounds (by omega) hfits]
  · rename_i hover
    have hneg := @wrapInt64_neg (2 * w) (by omega) (by omega)
    omega

theorem limitedBy_alone {w : Int} (hw : 1 ≤ w ∧ w ≤ maxInt64) :
    Config.LimitedBy { workers := w, maxInflight := wrapInt64 (w + max (wrapInt64 (w * 2)) 64) }
      fun bound => AloneFits bound w := by
  have hmax : maxInt64 = 9223372036854775807 := rfl
  have hwaiting : 0 ≤ max (wrapInt64 (w * 2)) 64 ∧ max (wrapInt64 (w * 2)) 64 ≤ maxInt64 := by
    rw [waitingRoom_eq hw]
    omega
  refine (limitedBy_sum hw hwaiting).of_iff fun bound _ => ?_
  rw [waitingRoom_eq hw]
  unfold AloneFits
  omega

/-- **The limit is that of the settings**, or negative where they do not
fit. -/
theorem sizesFrom_limitedBy {numCPU : Int} {maxN workersN queueN : Option Int}
    (hmax : Counts maxN) (hworkers : Counts workersN) (hqueue : Counts queueN) :
    (sizesFrom numCPU maxN workersN queueN).LimitedBy
      fun bound => SizesFit bound numCPU maxN workersN queueN := by
  have hchosen := chosenWorkers_bounds numCPU hworkers
  by_cases hzero : maxN = some 0
  · subst hzero
    refine limitedBy_unlimited.of_iff fun bound hnonneg => ⟨fun _ => trivial, fun _ =>
      ⟨fun hne => absurd rfl hne, fun _ m hm => ?_, fun hnone => ?_⟩⟩
    · obtain rfl := Option.some.inj hm
      exact hnonneg
    · cases hnone
  cases queueN with
  | some q =>
    rw [sizesFrom_queue hzero hworkers]
    refine (limitedBy_sum hchosen (hqueue q rfl)).of_iff fun bound _ =>
      ⟨fun hfit => hfit.queue hzero q rfl, fun hle => ⟨fun _ q' hq => ?_, fun hnone => ?_,
        fun _ hnone => ?_⟩⟩
    · obtain rfl := Option.some.inj hq
      exact hle
    · cases hnone
    · cases hnone
  | none =>
    cases maxN with
    | some m =>
      have hm : 1 ≤ m := hmax.pos hzero
      rw [sizesFrom_max hm hworkers]
      refine ⟨fun bound _ _ => ⟨fun hfit => ⟨by simp only; omega, hfit.limit rfl m rfl⟩,
        fun hle => ⟨fun _ q hq => ?_, fun _ m' hm' => ?_, fun hnone => ?_⟩⟩,
        fun _ => .inr ⟨le_min hchosen.1 hm, min_le_right _ _⟩, (hmax m rfl).2⟩
      · cases hq
      · obtain rfl := Option.some.inj hm'
        exact hle.2
      · cases hnone
    | none =>
      by_cases hnone : workersN = some 0
      · subst hnone
        refine limitedBy_unlimited.of_iff fun bound _ => ⟨fun _ => trivial, fun _ =>
          ⟨fun _ q hq => ?_, fun _ m hm => ?_, fun _ _ hne => absurd rfl hne⟩⟩
        · cases hq
        · cases hm
      · rw [sizesFrom_alone hnone hworkers]
        refine (limitedBy_alone hchosen).of_iff fun bound _ =>
          ⟨fun hfit => hfit.alone rfl rfl hnone, fun hfits => ⟨fun _ q hq => ?_, fun _ m hm => ?_,
            fun _ _ _ => hfits⟩⟩
        · cases hq
        · cases hm

/-! ## From the environment to the pool -/

/-- The panic is a limit that is negative or too large for a channel of
strings. -/
theorem newLocalPool_eq_none_iff (room : Nat) (cfg : Config) :
    newLocalPool room cfg = none ↔ ¬ (0 ≤ cfg.maxInflight ∧ 16 * cfg.maxInflight ≤ room) := by
  by_cases hlimit : cfg.maxInflight = 0
  · simp [newLocalPool, hlimit]
  · rw [newLocalPool_limited hlimit]
    split
    · rename_i hfits
      simp [hfits]
    · rename_i hnot
      simp [hnot]

/-- The limit up to which the runtime makes the channel of strings. -/
def chanBound (room : Nat) : Int := min maxInt64 (room / 16)

theorem Config.LimitedBy.newLocalPool_iff {c : Config} {fits : Int → Prop} (h : c.LimitedBy fits)
    (room : Nat) : newLocalPool room c = none ↔ ¬ fits (chanBound room) := by
  have hmax : maxInt64 = 9223372036854775807 := rfl
  have hint := h.int64
  have hnonneg : 0 ≤ chanBound room := by
    unfold chanBound
    omega
  have hle : chanBound room ≤ maxInt64 := min_le_left _ _
  rw [newLocalPool_eq_none_iff, h.limit _ hnonneg hle]
  unfold chanBound
  omega

/-- **When a configuration is in order.** A configuration that is accepted
is unlimited or has a worker and no more workers than jobs, exactly if
no sum of its settings overflows. The local pool is made exactly if the
sums are at most what the channel of jobs can be made for; otherwise
`make` panics. A pool that is made is unlimited or has a worker. -/
theorem config_sized_iff [GoStd] (numCPU : Int) (room : Nat) (env : WorkerEnv) {cfg : FullConfig}
    (h : configFromEnv numCPU env = .ok cfg) :
    let fits bound := SizesFit bound numCPU (settingValue env.maxInflight)
      (settingValue env.workers) (settingValue env.queueSize)
    (cfg.sizes.Sized ↔ fits maxInt64) ∧
      (newLocalPool room cfg.sizes = none ↔ ¬ fits (chanBound room)) ∧
      ∀ p, newLocalPool room cfg.sizes = some p → p.unlimited = true ∨ 1 ≤ p.workers := by
  intro fits
  obtain ⟨hmax, hworkers, hqueue, hsizes⟩ := configFromEnv_spec h
  have hlimited : cfg.sizes.LimitedBy fits := hsizes ▸ sizesFrom_limitedBy hmax hworkers hqueue
  refine ⟨hlimited.sized_iff, hlimited.newLocalPool_iff room, fun p hp => ?_⟩
  have hworker := (newLocalPool_cases hp).2.2.2
  cases hu : p.unlimited with
  | true => exact .inl rfl
  | false => exact .inr (hworker hu)

/-- The `room` of Go 1.26 on 64-bit Linux: addresses of 48 bits, and a
head of 112 bytes. -/
def linuxRoom : Nat := 2 ^ 48 - 112

/-- The largest number as queue size, or many workers and nothing else:
accepted, and the pool is not made. A queue size whose sum does not
overflow is as bad. -/
theorem sizes_overflow :
    let _ := GoStd.plain
    (∃ cfg, configFromEnv 4 { queueSize := "9223372036854775807" } = .ok cfg ∧
      cfg.sizes = { maxInflight := -9223372036854775801, workers := 8 } ∧ ¬ cfg.sizes.Sized ∧
      newLocalPool linuxRoom cfg.sizes = none) ∧
    (∃ cfg, configFromEnv 4 { workers := "4000000000000000000" } = .ok cfg ∧
      cfg.sizes = { maxInflight := -6446744073709551616, workers := 4000000000000000000 } ∧
      ¬ cfg.sizes.Sized ∧ newLocalPool linuxRoom cfg.sizes = none) ∧
    ∃ cfg, configFromEnv 4 { queueSize := "9223372036854775799" } = .ok cfg ∧
      cfg.sizes = { maxInflight := 9223372036854775807, workers := 8 } ∧ cfg.sizes.Sized ∧
      newLocalPool linuxRoom cfg.sizes = none := by
  intro _
  refine ⟨?_, ?_, ?_⟩
  · exact ⟨{ mode := "local", sizes := { maxInflight := -9223372036854775801, workers := 8 } },
      by decide +kernel, rfl, by decide, by decide +kernel⟩
  · exact ⟨{ mode := "local"
             sizes := { maxInflight := -6446744073709551616, workers := 4000000000000000000 } },
      by decide +kernel, rfl, by decide, by decide +kernel⟩
  · exact ⟨{ mode := "local", sizes := { maxInflight := 9223372036854775807, workers := 8 } },
      by decide +kernel, rfl, by decide, by decide +kernel⟩

/-- Three workers and room for seven more jobs. -/
theorem config_sized_iff_queue :
    let _ := GoStd.plain
    ∃ cfg, configFromEnv 4 { workers := "3", queueSize := "7" } = .ok cfg ∧ cfg.sizes.Sized ∧
      newLocalPool linuxRoom cfg.sizes ≠ none := by
  intro _
  have hcfg : configFromEnv 4 { workers := "3", queueSize := "7" } =
      .ok { mode := "local", sizes := { maxInflight := 10, workers := 3 } } := by
    decide +kernel
  obtain ⟨hsized, hnone, -⟩ :=
    config_sized_iff 4 linuxRoom { workers := "3", queueSize := "7" } hcfg
  have hfits (bound : Int) (hbound : 10 ≤ bound) :
      SizesFit bound 4 (settingValue "") (settingValue "3") (settingValue "7") := by
    have hmax : settingValue "" = none := by decide +kernel
    have hworkers : settingValue "3" = some 3 := by decide +kernel
    have hqueue : settingValue "7" = some 7 := by decide +kernel
    rw [hmax, hworkers, hqueue]
    refine ⟨fun _ q hq => ?_, fun hnone => ?_, fun _ hnone => ?_⟩
    · obtain rfl := Option.some.inj hq
      exact hbound
    · cases hnone
    · cases hnone
  exact ⟨_, hcfg, hsized.mpr (hfits _ (by decide)),
    fun hpanic => hnone.mp hpanic (hfits _ (by decide +kernel))⟩

end Scintx.Workers
