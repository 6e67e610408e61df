import Reproduce.Linux.Equiv.Hangs

/-!
# First stops

Whatever the tracer does, a live process that was created is in its first stop until it is resumed
from it, and that happens once; and the leader of a thread group that has other tasks was resumed
(`Grown`).  A new process that was not resumed has no other thread, so that its first stop or its
death can be reported (`fresh_waited`).
-/

namespace Reproduce.Linux

open Bytes Effect

variable {w w' : World} {m : Move} {pid p q : PidT} {t t' u : Task}

/-! ### Tasks -/

/-- A live task that was created is in its first stop, or was resumed from it once. -/
def Task.Counted (t : Task) : Prop :=
  t.birth ≠ 0 → t.isDead = false → t.starts = if t.stop? = some .initial then 0 else 1

/-- What a task was and what it becomes by a move of its own. -/
structure Task.Kept (t t' : Task) : Prop where
  tgid : t'.tgid = t.tgid
  birth : t'.birth = t.birth
  starts : t'.starts = t.starts
  earlyPokes : t'.earlyPokes = t.earlyPokes

theorem kept_moves (h : t.Moves t') : t.Kept t' := by
  cases h with
  | finish regs =>
    unfold Task.finish
    split
    · exact ⟨rfl, rfl, rfl, rfl⟩
    · split <;> exact ⟨rfl, rfl, rfl, rfl⟩
  | _ => exact ⟨rfl, rfl, rfl, rfl⟩

/-- No move of its own leads a task to a first stop. -/
theorem not_initial_moves (h : t.Moves t') : t'.stop? ≠ some .initial := by
  cases h with
  | enter regs hstate => simp [Task.stop?, Task.enter]
  | finish regs hstate => simp [Task.stop?, state_finish]
  | fork e child birth hstate => simp [Task.stop?, Task.forking]
  | signal sig regs hstate => simp [Task.stop?, Task.signal]
  | die => simp [Task.stop?]

/-- A live task that moves is in no first stop. -/
theorem not_initial_of_moves (h : t.Moves t') (hlive : t'.isDead = false) :
    t.isDead = false ∧ t.stop? ≠ some .initial := by
  cases h with
  | enter regs hstate => simp [Task.isDead, Task.stop?, hstate]
  | finish regs hstate => simp [Task.isDead, Task.stop?, hstate]
  | fork e child birth hstate => simp [Task.isDead, Task.stop?, hstate]
  | signal sig regs hstate => simp [Task.isDead, Task.stop?, hstate]
  | die => cases hlive

theorem Task.Counted.moves (h : t.Counted) (hmoves : t.Moves t') : t'.Counted := by
  intro hbirth hlive
  obtain ⟨hlive₀, hinitial⟩ := not_initial_of_moves hmoves hlive
  have hkept := kept_moves hmoves
  have hstarts := h (hkept.birth ▸ hbirth) hlive₀
  rw [if_neg hinitial] at hstarts
  rw [hkept.starts, hstarts, if_neg (not_initial_moves hmoves)]

/-- A task that runs has been resumed from its first stop. -/
theorem Task.Counted.of_kernel (h : t.Counted) {fresh : Bool} (hstate : t.state = .kernel fresh) :
    t.birth = 0 ∨ t.starts = 1 := by
  by_cases hbirth : t.birth = 0
  · exact .inl hbirth
  · have hrun : t.isDead = false ∧ t.stop? ≠ some .initial := by
      simp [Task.isDead, Task.stop?, hstate]
    have hstarts := h hbirth hrun.1
    rw [if_neg hrun.2] at hstarts
    exact .inr hstarts

theorem stop?_resume (t : Task) (stop : Stop) (data : Word) :
    (t.resume stop data).stop? = none := by
  cases stop <;> rfl

theorem Task.Counted.resume (h : t.Counted) {stop : Stop} (hstop : t.stop? = some stop)
    (data : Word) : (t.resume stop data).Counted := by
  obtain ⟨reported, hstate⟩ := state_of_stop? hstop
  have hlive : t.isDead = false := by simp [Task.isDead, hstate]
  intro hbirth _
  have hbirth' : t.birth ≠ 0 := by cases stop <;> exact hbirth
  have hstarts := h hbirth' hlive
  rw [stop?_resume, if_neg (by simp)]
  rw [hstop] at hstarts
  cases stop with
  | initial => exact congrArg (· + 1) hstarts
  | syscallEntry | syscallExit | event | signal => exact hstarts

/-! ### Worlds -/

/-- The leader of the group of a task has run, if it is another task. -/
def Led (w : World) (p : PidT) (t : Task) : Prop :=
  ∃ u, w.task t.tgid = some u ∧ u.tgid = t.tgid ∧ (p ≠ t.tgid → u.birth = 0 ∨ u.starts = 1)

/-- What holds of the tasks in every run. -/
structure Grown (w : World) : Prop where
  counted : ∀ q t, w.task q = some t → t.Counted
  led : ∀ p t, w.task p = some t → Led w p t
  listed : ∀ q t, w.task q = some t → q ∈ w.pids

/-- The leader of a group stays its leader. -/
theorem leader_moved (hmoved : Moved w m w') (hu : w.task p = some u) (hleader : u.tgid = p) :
    ∃ u', w'.task p = some u' ∧ u'.tgid = p ∧ u'.birth = u.birth ∧ u'.starts = u.starts := by
  have hbecomes := becomes hmoved p
  generalize ho : w'.task p = o at hbecomes
  cases hbecomes with
  | same => exact ⟨u, hu, hleader, rfl, rfl⟩
  | own hu' hmoves =>
    cases hu.symm.trans hu'
    have hkept := kept_moves hmoves
    exact ⟨_, rfl, hkept.tgid.trans hleader, hkept.birth, hkept.starts⟩
  | born hfree => cases hu.symm.trans hfree
  | gone hu' hstate hnr hne =>
    -- only the other threads of a group give up their pid
    cases hu.symm.trans hu'
    exact absurd (hleader.symm.trans (tgid_of_exec hmoved hu).1) hne
  | replaced hold hu' hstate hnr hdead =>
    cases hu.symm.trans hold
    exact ⟨_, rfl, (tgid_of_exec hmoved hu').1, rfl, rfl⟩

namespace Grown

/-- The leader of the group of a running task has been resumed from its first stop. -/
theorem leader_of_kernel (h : Grown w) (ht : w.task p = some t) {fresh : Bool}
    (hstate : t.state = .kernel fresh) :
    ∃ u, w.task t.tgid = some u ∧ u.tgid = t.tgid ∧ (u.birth = 0 ∨ u.starts = 1) := by
  obtain ⟨u, hu, hleader, hrun⟩ := h.led p t ht
  refine ⟨u, hu, hleader, ?_⟩
  by_cases hp : p = t.tgid
  · rw [← hp] at hu
    cases ht.symm.trans hu
    exact (h.counted p t ht).of_kernel hstate
  · exact hrun hp

/-- Whom a thread replaces that executes a program, has run. -/
theorem replaced (h : Grown w) {regs : UserRegsStruct} {image : Memory} {old : Task}
    (hmoved : Moved w (.exec p q regs image) w') (ht : w.task p = some t)
    (hstate : t.state = .kernel true) (hold : w.task q = some old) :
    old.birth = 0 ∨ old.starts = 1 := by
  obtain ⟨u, hu, -, hrun⟩ := h.leader_of_kernel ht hstate
  rw [(tgid_of_exec hmoved ht).1] at hu
  cases hu.symm.trans hold
  exact hrun

theorem led_moved (h : Grown w) (hmoved : Moved w m w') (ht : w'.task p = some t) :
    Led w' p t := by
  have htransfer : ∀ {g : PidT} {u : Task}, w.task g = some u → u.tgid = g →
      (p ≠ g → u.birth = 0 ∨ u.starts = 1) → t.tgid = g → Led w' p t := by
    rintro g u hu hleader hrun rfl
    obtain ⟨u', hu', hleader', hbirth, hstarts⟩ := leader_moved hmoved hu hleader
    exact ⟨u', hu', hleader', by rw [hbirth, hstarts]; exact hrun⟩
  have hbecomes := becomes hmoved p
  generalize ho : w'.task p = o at hbecomes
  cases hbecomes with
  | same =>
    obtain ⟨u, hu, hleader, hrun⟩ := h.led p t (ho.symm.trans ht)
    exact htransfer hu hleader hrun rfl
  | own hu hmoves =>
    cases ht.symm.trans ho
    obtain ⟨u, hu, hleader, hrun⟩ := h.led p _ hu
    exact htransfer hu hleader hrun (kept_moves hmoves).tgid
  | @born p₀ t₀ e thread share rsp hfree hu hstate hnr =>
    cases ht.symm.trans ho
    cases thread with
    | false => exact ⟨_, ho, rfl, fun hne => absurd rfl hne⟩
    | true =>
      obtain ⟨u, hu, hleader, hrun⟩ := h.leader_of_kernel hu hstate
      exact htransfer hu hleader (fun _ => hrun) rfl
  | gone => cases ht.symm.trans ho
  | replaced hold hu hstate hnr hdead =>
    cases ht.symm.trans ho
    have htgid := (tgid_of_exec hmoved hu).1
    exact ⟨_, htgid.symm ▸ ho, rfl, fun hne => absurd htgid.symm hne⟩

theorem counted_moved (h : Grown w) (hmoved : Moved w m w') (ht : w'.task q = some t) :
    t.Counted := by
  have hbecomes := becomes hmoved q
  generalize ho : w'.task q = o at hbecomes
  cases hbecomes with
  | same => exact h.counted q t (ho.symm.trans ht)
  | own hu hmoves =>
    cases ht.symm.trans ho
    exact (h.counted q _ hu).moves hmoves
  | born hfree hu hstate hnr =>
    cases ht.symm.trans ho
    exact fun _ _ => rfl
  | gone => cases ht.symm.trans ho
  | replaced hold hu hstate hnr hdead =>
    cases ht.symm.trans ho
    exact fun hbirth _ => (h.replaced hmoved hu hstate hold).resolve_left hbirth

theorem moved (h : Grown w) (hmoved : Moved w m w') : Grown w' :=
  ⟨fun _ _ => h.counted_moved hmoved, fun _ _ => h.led_moved hmoved, listed_moved h.listed hmoved⟩

theorem congr (h : Grown w) (htask : w'.task = w.task) (hpids : w'.pids = w.pids) : Grown w' where
  counted := by rw [htask]; exact h.counted
  led := by unfold Led; rw [htask]; exact h.led
  listed := by rw [htask, hpids]; exact h.listed

/-- A task of a changed world, and the task that it was. -/
theorem of_setTask {o : Option Task} (hu : (w.setTask pid o).task q = some u) :
    (q = pid ∧ o = some u) ∨ (q ≠ pid ∧ w.task q = some u) := by
  by_cases hq : q = pid
  · subst hq
    rw [World.task_setTask_self] at hu
    exact .inl ⟨rfl, hu⟩
  · rw [World.task_setTask_of_ne _ _ hq] at hu
    exact .inr ⟨hq, hu⟩

/-- A task changes that stays in its group. -/
theorem setTask (h : Grown w) (ht : w.task pid = some t) (hcounted : t'.Counted)
    (htgid : t'.tgid = t.tgid)
    (hrun : t.birth = 0 ∨ t.starts = 1 → t'.birth = 0 ∨ t'.starts = 1) :
    Grown (w.setTask pid (some t')) where
  counted q u hu := by
    rcases of_setTask hu with ⟨-, ho⟩ | ⟨-, hu⟩
    · cases ho
      exact hcounted
    · exact h.counted q u hu
  led q u hu := by
    -- the leader may be the task that changes
    have hleader : ∀ {g : PidT} {v : Task}, w.task g = some v → v.tgid = g →
        (q ≠ g → v.birth = 0 ∨ v.starts = 1) → u.tgid = g →
        Led (w.setTask pid (some t')) q u := by
      rintro g v hv hvg hvrun rfl
      by_cases hg : u.tgid = pid
      · rw [hg] at hv hvg hvrun
        cases ht.symm.trans hv
        refine ⟨t', by rw [hg, World.task_setTask_self], by rw [htgid, hvg, hg], fun hne => ?_⟩
        exact hrun (hvrun (hg ▸ hne))
      · exact ⟨v, (World.task_setTask_of_ne _ _ hg).trans hv, hvg, hvrun⟩
    rcases of_setTask hu with ⟨rfl, ho⟩ | ⟨-, hu⟩
    · cases ho
      obtain ⟨v, hv, hvg, hvrun⟩ := h.led q t ht
      exact hleader hv hvg hvrun htgid
    · obtain ⟨v, hv, hvg, hvrun⟩ := h.led q u hu
      exact hleader hv hvg hvrun rfl
  listed _ _ := listed_setTask h.listed (h.listed pid t ht)

/-- The registers of a task change, or how its stop is marked. -/
theorem setTask_same (h : Grown w) (ht : w.task pid = some t) (hkept : t.Kept t')
    (hstop : t'.stop? = t.stop?) (hdead : t'.isDead = t.isDead) :
    Grown (w.setTask pid (some t')) := by
  refine h.setTask ht ?_ hkept.tgid (by rw [hkept.birth, hkept.starts]; exact id)
  unfold Task.Counted
  rw [hkept.birth, hdead, hkept.starts, hstop]
  exact h.counted pid t ht

theorem resumed (h : Grown w) (ht : w.task pid = some t) {stop : Stop} (hstop : t.stop? = some stop)
    (data : Word) : Grown (w.setTask pid (some (t.resume stop data))) := by
  have hcounted := (h.counted pid t ht).resume hstop data
  refine h.setTask ht hcounted (by cases stop <;> rfl) fun hrun => ?_
  have hbirth : (t.resume stop data).birth = t.birth := by cases stop <;> rfl
  have hlive : (t.resume stop data).isDead = false := by cases stop <;> rfl
  by_cases hzero : t.birth = 0
  · exact .inl (hbirth.trans hzero)
  · have hstarts := hcounted (hbirth ▸ hzero) hlive
    rw [stop?_resume, if_neg (by simp)] at hstarts
    exact .inr hstarts

/-- The leader of a group is reaped last. -/
theorem reaped (h : Grown w) (ht : w.task pid = some t)
    (hlast : t.tgid = pid → w.lastInGroup pid pid = true) : Grown (w.setTask pid none) := by
  have hold : ∀ {q : PidT} {u : Task}, (w.setTask pid none).task q = some u →
      q ≠ pid ∧ w.task q = some u := by
    intro q u hu
    rcases of_setTask hu with ⟨-, ho⟩ | hold
    · cases ho
    · exact hold
  refine ⟨fun q u hu => h.counted q u (hold hu).2, fun q u hu => ?_,
    fun q u hu => h.listed q u (hold hu).2⟩
  obtain ⟨hq, hu⟩ := hold hu
  obtain ⟨v, hv, hleader, hrun⟩ := h.led q u hu
  have hne : u.tgid ≠ pid := by
    intro hg
    rw [hg] at hv hleader
    cases ht.symm.trans hv
    have hother := List.all_eq_true.mp (hlast hleader) q (h.listed q u hu)
    simp [hq, hu, hg] at hother
  exact ⟨v, (World.task_setTask_of_ne _ _ hne).trans hv, hleader, hrun⟩

theorem reported (h : Grown w) {status : Status} (hreported : Reported w pid status w') :
    Grown w' := by
  cases hreported with
  | stopped ht hstate =>
    refine h.setTask_same ht ⟨rfl, rfl, rfl, rfl⟩ (stop?_stopped hstate).symm ?_
    simp [Task.isDead, hstate]
  | reaped ht hstate hlast => exact h.reaped ht hlast

theorem performed (h : Grown w) {r : Request} (ht : w.task r.pid = some t)
    (hstop : t.isStopped = true) : Grown (w.perform t r).2 := by
  cases r with
  | peek pid place =>
    rw [perform_peek_snd]
    exact h
  | pokedata pid addr data =>
    rcases perform_poke_snd w t pid addr data with hsame | ⟨m, hpoke⟩
    · rw [hsame]
      exact h
    · rw [hpoke]
      have hmem : Grown (w.setMem t.mm m) := h.congr rfl rfl
      unfold World.countPoke
      split
      · have hcount : Grown
            ((w.setMem t.mm m).setTask pid (some { t with earlyPokes := t.earlyPokes + 1 })) :=
          hmem.setTask ht (h.counted pid t ht) rfl id
        exact hcount.congr rfl rfl
      · exact hmem.congr rfl rfl
  | getregs pid => exact h
  | setregs pid regs =>
    have hset : Grown (w.setTask pid (some { t with regs := regs })) :=
      h.setTask_same ht ⟨rfl, rfl, rfl, rfl⟩ rfl rfl
    exact hset.congr rfl rfl
  | syscall pid data =>
    obtain ⟨stop, hstop⟩ := stop?_of_isStopped hstop
    rw [perform_syscall_snd pid data hstop]
    exact h.resumed ht hstop data
  | geteventmsg pid =>
    rw [perform_geteventmsg_snd]
    exact h

end Grown

theorem grown_recounts : Recounts fun _ w => Grown w where
  congr h := h.congr
  moved h := h.moved
  malloc _ _ := id
  call _ _ _ := id
  performed h ht hstop := h.performed ht hstop
  refused h _ := h
  reported h hreported _ := h.reported hreported
  unreported h _ := h

variable {env : Env}

/-! ### Runs -/

theorem grown_boot (b : Boot) : Grown b.world where
  counted q t ht hbirth := by
    obtain ⟨-, rfl⟩ := boot_cases b ht
    exact absurd rfl hbirth
  led q t ht := by
    obtain ⟨rfl, rfl⟩ := boot_cases b ht
    exact ⟨_, ht, rfl, fun hne => absurd rfl hne⟩
  listed q t ht := by
    rw [(boot_cases b ht).1]
    exact .head _

theorem grown_head {b : Boot} {scan : Nat} {C : Tracer World → Tracer World → Prop}
    {s : Tracer World} (h : b.Head env scan C s) : Grown s.os := by
  obtain ⟨n, rfl⟩ := h.final
  exact grown_recounts.chronicles.run env (grown_boot b) scan n

/-! ### Processes that were not resumed -/

/-- A new process that was not resumed and whose first stop was not reported. -/
structure Task.Fresh (t : Task) : Prop where
  birth : t.birth ≠ 0
  starts : t.starts = 0
  state : t.state = .stopped .initial false ∨ t.isDead = true

theorem Task.Fresh.still (h : t.Fresh) : t.isDead = true ∨ ∃ stop, t.stop? = some stop :=
  h.state.symm.imp_right fun hstate => ⟨_, stop?_stopped hstate⟩

theorem Task.Fresh.moves (h : t.Fresh) (hmoves : t.Moves t') : t'.Fresh := by
  have hkept := kept_moves hmoves
  exact ⟨hkept.birth ▸ h.birth, hkept.starts.trans h.starts,
    .inr (isDead_of_moves hmoves h.still)⟩

/-- It does nothing but die, and nobody takes its place. -/
theorem fresh_moved (hgrown : Grown w) (hmoved : Moved w m w')
    (h : ∃ t, w.task q = some t ∧ t.Fresh) : ∃ t, w'.task q = some t ∧ t.Fresh := by
  obtain ⟨t, ht, hfresh⟩ := h
  have hbecomes := becomes hmoved q
  generalize ho : w'.task q = o at hbecomes
  cases hbecomes with
  | same => exact ⟨t, ht, hfresh⟩
  | own hu hmoves =>
    cases ht.symm.trans hu
    exact ⟨_, rfl, hfresh.moves hmoves⟩
  | born hfree => cases ht.symm.trans hfree
  | gone hu hstate =>
    cases ht.symm.trans hu
    exact absurd hstate ((still_state hfresh.still).2 true)
  | replaced hold hu hstate =>
    cases ht.symm.trans hold
    rcases hgrown.replaced hmoved hu hstate hold with hbirth | hstarts
    · exact absurd hbirth hfresh.birth
    · cases hfresh.starts.symm.trans hstarts

variable (env)

theorem fresh_asked (hgrown : Grown w) (h : ∃ t, w.task q = some t ∧ t.Fresh) (query : Query) :
    Grown (w.asked env query) ∧ ∃ t, (w.asked env query).task q = some t ∧ t.Fresh := by
  have hrun := @runMoves_induction (fun w => Grown w ∧ ∃ t, w.task q = some t ∧ t.Fresh)
    (env w.tick query).moves (fun w m w' _ hw hmoved => ?_) w ⟨hgrown, h⟩
  · exact ⟨hrun.1.congr rfl rfl, hrun.2⟩
  · have hfresh := fresh_moved hw.1 hmoved hw.2
    exact ⟨(hw.1.moved hmoved).congr rfl rfl, hfresh⟩

/-- It has no other thread, so that its first stop or its death can be reported. -/
theorem fresh_reported (hgrown : Grown w) (h : ∃ t, w.task q = some t ∧ t.Fresh) :
    ∃ status, (w.report q).1 = some (.ok (q, status)) := by
  obtain ⟨t, ht, hfresh⟩ := h
  have hlast : w.lastInGroup q q = true := by
    refine List.all_eq_true.mpr fun p _ => ?_
    by_cases hp : p = q
    · simp [hp]
    · cases hu : w.task p with
      | none => simp
      | some u =>
        have hother : u.tgid ≠ q := by
          intro htgid
          obtain ⟨v, hv, -, hrun⟩ := hgrown.led p u hu
          rw [htgid] at hv hrun
          cases ht.symm.trans hv
          rcases hrun hp with hbirth | hstarts
          · exact hfresh.birth hbirth
          · cases hfresh.starts.symm.trans hstarts
        simp [hother]
  unfold World.report
  rw [ht]
  dsimp only
  rcases hfresh.state with hstate | hdead
  · rw [hstate]
    exact ⟨_, rfl⟩
  · unfold Task.isDead at hdead
    split at hdead
    · next status hstate =>
      rw [hstate]
      dsimp only
      rw [if_neg (by simp [hlast])]
      exact ⟨_, rfl⟩
    · cases hdead

theorem fresh_waited (hgrown : Grown w) (h : ∃ t, w.task q = some t ∧ t.Fresh) :
    ∃ status, (World.waitpid env (some q) w).1 = some (.ok (q, status)) := by
  obtain ⟨hasked, hfresh⟩ := fresh_asked env hgrown h (.wait (some q))
  obtain ⟨status, hreported⟩ := fresh_reported hasked hfresh
  obtain ⟨t, ht, -⟩ := hfresh
  refine ⟨status, ?_⟩
  unfold World.waitpid
  dsimp only
  rw [← World.asked, if_neg (by simp [ht])]
  exact hreported

end Reproduce.Linux
