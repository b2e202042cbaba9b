import JosSched.Kern.TrapPaths

/-!
# Traps by cause

What `trap` comes to for an environment that is no zombie: the system call of its frame, or the
clock interrupt.
-/

namespace JosSched

variable {c : Cpu} {s s' : Kernel} {inp : Input} {tf : Trapframe} {cur : Slot}

@[simp] theorem saved_cpuStatus : ((saved c s cur tf).cpus c).cpuStatus = .started := by
  simp [saved, started, Kernel.modCpu]

@[simp] theorem saved_stats : (saved c s cur tf).stats = s.stats := rfl

theorem trap_eq (hcur : s.curenv c = some cur) (hdying : (s.envs cur).envStatus ≠ .dying) :
    trap c s inp tf = finish (trapDispatch c (saved c s cur tf) inp cur tf) (trapReturn c) := by
  unfold trap
  have hcur' : (started c s).curenv c = some cur := started_curenv.trans hcur
  simp only [hcur']
  exact if_neg hdying

/-- The state after a system call that returns `r`, in state `s`. -/
def returned (s : Kernel) (cur : Slot) (r : ℤ) : Kernel :=
  s.modEnv cur fun env => { env with envTf := env.envTf.setEax (BitVec.ofInt 32 r) }

/-- The call of a trap either returns to the end of `trap`, or leaves the kernel itself. -/
theorem trap_syscall {no : Sysno} (hcur : s.curenv c = some cur)
    (hdying : (s.envs cur).envStatus ≠ .dying) (hcall : Calls tf no)
    (h : trap c s inp tf = .leave s') :
    (∃ r s₁, syscall c (saved c s cur tf) inp cur (some no) tf.tfRegs.regEdx tf.tfRegs.regEcx
        tf.tfRegs.regEbx tf.tfRegs.regEdi tf.tfRegs.regEsi = .ok (r, s₁) ∧
        trapReturn c (returned s₁ cur r) = .leave s') ∨
      syscall c (saved c s cur tf) inp cur (some no) tf.tfRegs.regEdx tf.tfRegs.regEcx
        tf.tfRegs.regEbx tf.tfRegs.regEdi tf.tfRegs.regEsi = .error (.leave s') := by
  obtain ⟨htrap, hno⟩ := hcall
  rw [trap_eq hcur hdying] at h
  unfold trapDispatch at h
  dsimp only at h
  rw [htrap, if_neg (by decide), if_neg (by decide), if_pos rfl, hno] at h
  cases hcall : syscall c (saved c s cur tf) inp cur (some no) tf.tfRegs.regEdx tf.tfRegs.regEcx
      tf.tfRegs.regEbx tf.tfRegs.regEdi tf.tfRegs.regEsi with
  | error x =>
      rw [hcall] at h
      have hx : x = .leave s' := h
      exact .inr (congrArg _ hx)
  | ok ret =>
      rw [hcall] at h
      exact .inl ⟨ret.1, ret.2, rfl, h⟩

/-- A call that returns. -/
theorem trap_of_ok {no : Sysno} {r : ℤ} {s₁ : Kernel} (hcur : s.curenv c = some cur)
    (hdying : (s.envs cur).envStatus ≠ .dying) (hcall : Calls tf no)
    (h : syscall c (saved c s cur tf) inp cur (some no) tf.tfRegs.regEdx tf.tfRegs.regEcx
      tf.tfRegs.regEbx tf.tfRegs.regEdi tf.tfRegs.regEsi = .ok (r, s₁)) :
    trap c s inp tf = trapReturn c (returned s₁ cur r) := by
  obtain ⟨htrap, hno⟩ := hcall
  rw [trap_eq hcur hdying]
  unfold trapDispatch
  dsimp only
  rw [htrap, if_neg (by decide), if_neg (by decide), if_pos rfl, hno, h]
  rfl

/-- A call that leaves the kernel itself. -/
theorem trap_of_error {no : Sysno} {x : Exit} (hcur : s.curenv c = some cur)
    (hdying : (s.envs cur).envStatus ≠ .dying) (hcall : Calls tf no)
    (h : syscall c (saved c s cur tf) inp cur (some no) tf.tfRegs.regEdx tf.tfRegs.regEcx
      tf.tfRegs.regEbx tf.tfRegs.regEdi tf.tfRegs.regEsi = .error x) :
    trap c s inp tf = x := by
  obtain ⟨htrap, hno⟩ := hcall
  rw [trap_eq hcur hdying]
  unfold trapDispatch
  dsimp only
  rw [htrap, if_neg (by decide), if_neg (by decide), if_pos rfl, hno, h]
  rfl

/-- The clock interrupt is a scheduling decision, once the sleepers have been woken. -/
theorem trap_timer (hcur : s.curenv c = some cur) (hdying : (s.envs cur).envStatus ≠ .dying)
    (htrap : tf.tfTrapno = IRQ_OFFSET + IRQ_TIMER) :
    trap c s inp tf = schedYield c (tick (saved c s cur tf)) := by
  rw [trap_eq hcur hdying]
  unfold trapDispatch
  dsimp only
  rw [htrap, if_neg (by decide), if_neg (by decide), if_neg (by decide), if_neg (by decide),
    if_pos (by decide)]
  rfl

/-- What `sys_sleep(n)` makes of its caller. -/
def asleep (s : Kernel) (cur : Slot) (n : Word) : Kernel :=
  s.modEnv cur fun env => { env with
    envSleepUntil := s.ticks + n
    envStatus := .notRunnable
    envTf := env.envTf.setEax 0 }

/-- `sys_sleep` does not return. -/
theorem trap_sleep (hcur : s.curenv c = some cur) (hdying : (s.envs cur).envStatus ≠ .dying)
    (hcall : Calls tf .sleep) (hn : tf.tfRegs.regEdx ≠ 0) :
    trap c s inp tf = schedYield c (asleep (saved c s cur tf) cur tf.tfRegs.regEdx) := by
  refine trap_of_error hcur hdying hcall ?_
  show sysSleep c _ cur _ = _
  unfold sysSleep
  rw [if_neg hn]
  rfl

/-- The end of `trap` is a way to leave the kernel. -/
theorem trapReturn_departs {L : Act → Prop} (h : trapReturn c s = .leave s') :
    Departs c L s s' := by
  unfold trapReturn at h
  split at h
  · next cur hcur =>
      split at h
      · exact .resume hcur h
      · next hrun =>
          refine .idle (fun cur' hcur' => ?_) h
          obtain rfl := Option.some.inj (hcur.symm.trans hcur')
          exact hrun
  · next hnone =>
      refine .idle (fun cur hcur => ?_) h
      rw [hnone] at hcur
      cases hcur

/-- A call of `sys_exofork` or `sys_thread_create`. -/
theorem trap_creates {L : Act → Prop} (hcur : s.curenv c = some cur)
    (hdying : (s.envs cur).envStatus ≠ .dying)
    (hcall : Calls tf .exofork ∨ Calls tf .threadCreate) (h : trap c s inp tf = .leave s') :
    ∃ act s₁ r, (act = Act.exofork cur ∨ act = Act.thread cur) ∧
      Creates c act (saved c s cur tf) s₁ ∧ Departs c L (returned s₁ cur r) s' := by
  have hcur' : (saved c s cur tf).curenv c = some cur := saved_curenv.trans hcur
  rcases hcall with hcall | hcall
  · have hspec := sysExofork_creates hcur'
    rcases trap_syscall hcur hdying hcall h with ⟨r, s₁, hret, hleave⟩ | herr
    · exact ⟨_, s₁, r, .inl rfl, hspec.of_ok _ hret, trapReturn_departs hleave⟩
    · exact absurd rfl (hspec.of_error _ herr).ne_leave
  · have hspec : (sysThreadCreate (saved c s cur tf) cur tf.tfRegs.regEdx
        tf.tfRegs.regEcx).Ensures (fun r => Creates c (.thread cur) (saved c s cur tf) r.2)
        Exit.IsPanic := sysThreadCreate_creates hcur'
    rcases trap_syscall hcur hdying hcall h with ⟨r, s₁, hret, hleave⟩ | herr
    · exact ⟨_, s₁, r, .inr rfl, hspec.of_ok _ hret, trapReturn_departs hleave⟩
    · exact absurd rfl (hspec.of_error _ herr).ne_leave

end JosSched
