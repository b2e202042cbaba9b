import JosSched.Kern.Pmap
import Mathlib.Data.List.FinRange

/-!
# The scheduler

`env_run` of `kern/env.c` and all of `kern/sched.c`: the two policies, the statistics they
keep, sleeping environments and the idle loop.
-/

namespace JosSched

/-- The start of `env_run`: the environment that was running becomes ready. -/
def preempt (c : Cpu) (s : Kernel) : Kernel :=
  match s.curenv c with
  | some cur =>
      if (s.envs cur).envStatus = .running then
        s.modEnv cur fun env => { env with envStatus := .runnable }
      else s
  | none => s

/-- Switches CPU `c` to environment `e`.  The lock is released on the way out. -/
def envRun (c : Cpu) (s : Kernel) (e : Slot) : Exit :=
  let s := (preempt c s).setCurenv c (some e)
  let s := s.modEnv e fun env => { env with envStatus := .running, envRuns := env.envRuns + 1 }
  match (s.envs e).envPgdir with
  | none => .stuck .paddr s
  | some pgdir =>
      let s := s.lcr3 c pgdir
      .leave (s.modEnv e fun env => { env with envCpunum := c })

/-! ## Statistics -/

/-- Charges the ticks since the last decision to the environment that was running. -/
def schedAccountCputicks (s : Kernel) : Kernel :=
  let st := s.stats
  if st.schedRunningId = 0 then s
  else
    let delta := s.ticks - st.schedRunningSince
    let slot := envx st.schedRunningId
    let rec_ := st.schedEnvStats slot
    let st := { st with
      schedEnvStats := Function.update st.schedEnvStats slot
        { rec_ with cputicks := rec_.cputicks + delta } }
    let st :=
      if h : st.schedRunningPrio.toNat < NPRIORITIES then
        let p : Fin NPRIORITIES := ⟨st.schedRunningPrio.toNat, h⟩
        { st with schedPrioTicks :=
            Function.update st.schedPrioTicks p (st.schedPrioTicks p + delta) }
      else st
    s.setStats { st with schedRunningId := 0 }

/-- The bookkeeping of `sched_run`, before it calls `env_run`. -/
def schedRecord (s : Kernel) (e : Slot) (effective : Word) : Kernel :=
  let env := s.envs e
  let slot := envx env.envId
  let bonus := effective - env.envPriority
  let s := schedAccountCputicks s
  let st := s.stats
  let old := st.schedEnvStats slot
  let recycled :=
    if old.envId ≠ env.envId ∧ old.envId ≠ 0 ∧ 0 < old.runs then old :: st.recycled
    else st.recycled
  let cur : EnvStat :=
    if old.envId ≠ env.envId then
      { old with envId := env.envId, runs := 0, cputicks := 0, maxbonus := 0 }
    else old
  let cur := { cur with
    runs := cur.runs + 1
    priority := env.envPriority
    maxbonus := if cur.maxbonus < bonus then bonus else cur.maxbonus }
  let h : Fin SCHED_HISTORY_LEN :=
    Fin.ofNat SCHED_HISTORY_LEN (st.schedHistoryCount.toNat % SCHED_HISTORY_LEN)
  s.setStats { st with
    schedEnvStats := Function.update st.schedEnvStats slot cur
    schedHistory := Function.update st.schedHistory h
      { envId := env.envId, tick := s.ticks, priority := env.envPriority,
        effective := effective }
    schedHistoryCount := st.schedHistoryCount + 1
    schedRunningId := env.envId
    schedRunningPrio := env.envPriority
    schedRunningSince := s.ticks
    recycled := recycled }

/-- `sched_run`: records the decision and runs the chosen environment. -/
def schedRun (c : Cpu) (s : Kernel) (e : Slot) (effective : Word) : Exit :=
  envRun c (schedRecord s e effective) e

/-! ## Sleep -/

/-- One iteration of `sched_wakeup_sleeping`. -/
def wakeup (ticks : Word) (env : Env) : Env :=
  if env.envStatus ≠ .notRunnable ∨ env.envSleepUntil = 0 then env
  else if env.envSleepUntil ≤ ticks then
    { env with envSleepUntil := 0, envStatus := .runnable }
  else env

def schedWakeupSleeping (s : Kernel) : Kernel :=
  { s with envs := fun e => wakeup s.ticks (s.envs e) }

/-! ## Policies -/

def AGING_THRESHOLD : Word := 4

def schedEffectivePriority (env : Env) : Word :=
  let bonus := env.envWaitTicks / AGING_THRESHOLD
  let bonus := if ENV_PRIORITY_MAX < bonus then ENV_PRIORITY_MAX else bonus
  env.envPriority + bonus

/-- `&envs[(start + i) % NENV]` for `i = 0, 1, …`: the circular order of a scan. -/
def scanFrom (start : ℕ) : List Slot :=
  (List.range NENV).map fun i => Fin.ofNat NENV (start + i)

/-- Where the scan starts: right after the environment of this CPU. -/
def scanStart (c : Cpu) (s : Kernel) : ℕ :=
  match s.curenv c with
  | some cur => (envx (s.envs cur).envId : ℕ) + 1
  | none => 0

/-- One iteration of the scan for the highest effective priority. -/
def schedBest (s : Kernel) (best : Option (Slot × Word)) (e : Slot) : Option (Slot × Word) :=
  if (s.envs e).envStatus ≠ .runnable then best
  else
    let prio := schedEffectivePriority (s.envs e)
    match best with
    | none => some (e, prio)
    | some (_, bestPrio) => if bestPrio < prio then some (e, prio) else best

/-- The environment the priority policy picks, with the priority it is picked with. -/
def schedPick (c : Cpu) (s : Kernel) : Option (Slot × Word) :=
  let best := (scanFrom (scanStart c s)).foldl (schedBest s) none
  match s.curenv c with
  | some cur =>
      if (s.envs cur).envStatus = .running then
        let curprio := schedEffectivePriority (s.envs cur)
        match best with
        | none => some (cur, curprio)
        | some (_, bestPrio) => if bestPrio < curprio then some (cur, curprio) else best
      else best
  | none => best

/-- Aging: every other ready environment accrues wait, the chosen one goes back to zero. -/
def schedAge (s : Kernel) (best : Slot) : Kernel :=
  { s with envs := fun e =>
      if e = best then { s.envs e with envWaitTicks := 0 }
      else if (s.envs e).envStatus = .runnable then
        { s.envs e with envWaitTicks := (s.envs e).envWaitTicks + 1 }
      else s.envs e }

/-- `sched_halt` finds something to wait for in this environment. -/
def Env.pending (env : Env) : Bool :=
  env.envStatus = .runnable ∨ env.envStatus = .running ∨ env.envStatus = .dying ∨
    (env.envStatus = .notRunnable ∧ env.envSleepUntil ≠ 0)

def schedHalt (c : Cpu) (s : Kernel) : Exit :=
  if (List.finRange NENV).any fun e => (s.envs e).pending then
    let s := s.setCurenv c none
    let s := s.lcr3 c s.mem.kernPgdir
    .leave (s.modCpu c fun cpu => { cpu with cpuStatus := .halted })
  else .stuck .noRunnable (schedAccountCputicks s)

/-- The end of `sched_yield`, common to both policies: no environment is ready. -/
def schedIdle (c : Cpu) (s : Kernel) (effective : Env → Word) : Exit :=
  match s.curenv c with
  | some cur =>
      if (s.envs cur).envStatus = .running then schedRun c s cur (effective (s.envs cur))
      else schedHalt c s
  | none => schedHalt c s

/-- `sched_calls++`. -/
def countCall (s : Kernel) : Kernel :=
  s.setStats { s.stats with schedCalls := s.stats.schedCalls + 1 }

/-- `sched_yield` chooses an environment and runs it, or halts the CPU. -/
def schedYield (c : Cpu) (s : Kernel) : Exit :=
  let s := countCall s
  match s.policy with
  | .roundRobin =>
      match (scanFrom (scanStart c s)).find? fun e => (s.envs e).envStatus = .runnable with
      | some e => schedRun c s e (s.envs e).envPriority
      | none => schedIdle c s Env.envPriority
  | .priorities =>
      match schedPick c s with
      | some (best, bestPrio) => schedRun c (schedAge s best) best bestPrio
      | none => schedIdle c s schedEffectivePriority

end JosSched
