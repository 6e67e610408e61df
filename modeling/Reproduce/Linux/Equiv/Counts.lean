import Reproduce.Linux.Equiv.Quiet

/-!
# Births and system calls

The serial number of a task's creation and the number of calls that it has entered tell system calls
apart.  A predicate on these two and on entry stops that moves and changes of one task keep
(`Endures`) holds on in every run (`Endures.lasts`).

No two tasks have one birth (`BirthsOk`), a task with a given birth stays where it is and does not
go back (`Since`), and a call whose entry stop is over is over for good (`Spent`).
-/

namespace Reproduce.Linux

open Bytes Effect

/-- The task goes on: it has entered one call more, or it has come to no entry stop. -/
def Task.GoesTo (t t' : Task) : Prop :=
  t'.birth = t.birth ∧ (t'.calls = t.calls + 1 ∨
    (t'.calls = t.calls ∧ (t'.stop? = some .syscallEntry → t.stop? = some .syscallEntry)))

/-- A predicate that holds on while tasks go on, are reaped and are born. -/
structure Endures (J : World → Prop) : Prop where
  congr : ∀ {w w' : World}, J w → w'.task = w.task → w'.births = w.births → J w'
  change : ∀ {w pid} {t t' : Task}, J w → w.task pid = some t → t.GoesTo t' →
    J (w.setTask pid (some t'))
  reap : ∀ {w pid}, J w → J (w.setTask pid none)
  born : ∀ {w pid} {t : Task}, J w → w.task pid = none → t.birth = w.births →
    J { w.setTask pid (some t) with births := w.births + 1 }

/-! ### What tasks do -/

theorem goes_moves {t t' : Task} (h : t.Moves t') : t.GoesTo t' := by
  cases h with
  | enter regs hstate => exact ⟨rfl, .inl rfl⟩
  | finish regs hstate =>
    have hcalls : (t.finish regs).birth = t.birth ∧ (t.finish regs).calls = t.calls := by
      unfold Task.finish
      split
      · exact ⟨rfl, rfl⟩
      · split <;> exact ⟨rfl, rfl⟩
    refine ⟨hcalls.1, .inr ⟨hcalls.2, fun hentry => ?_⟩⟩
    simp [Task.stop?] at hentry
  | fork e child birth hstate hnr => exact ⟨rfl, .inr ⟨rfl, by rintro ⟨⟩⟩⟩
  | signal sig regs hstate => exact ⟨rfl, .inr ⟨rfl, by rintro ⟨⟩⟩⟩
  | die hlive hstatus => exact ⟨rfl, .inr ⟨rfl, by rintro ⟨⟩⟩⟩

/-- The program that is executed goes on with the birth and the calls of the group leader. -/
theorem goes_exec (t old : Task) (pid : PidT) (mm : Nat) (regs : UserRegsStruct) :
    old.GoesTo (t.exec old pid mm regs) := ⟨rfl, .inr ⟨rfl, by rintro ⟨⟩⟩⟩

theorem goes_resume (t : Task) (stop : Stop) (data : Word) : t.GoesTo (t.resume stop data) := by
  cases stop <;> exact ⟨rfl, .inr ⟨rfl, by rintro ⟨⟩⟩⟩

section endures

variable {J L : World → Prop} {w w' : World} {pid : PidT} {t t' : Task}

theorem Endures.moved (h : Endures J) {m : Move} (hw : J w) (hmoved : Moved w m w') : J w' := by
  cases hmoved with
  | enter ht hstate => exact h.change hw ht (goes_moves (.enter _ hstate))
  | finish ht hstate => exact h.change hw ht (goes_moves (.finish _ hstate))
  | @fork p child t e thread share rsp ht hstate hnr he hchild hfree hshare =>
    -- the parent goes on to its event stop, and then the child is born
    have hparent := h.change hw ht (goes_moves (.fork e child w.births hstate hnr))
    have hne : child ≠ p := by
      rintro rfl
      cases hfree.symm.trans ht
    have hfree' : (w.setTask p (some (t.forking e child w.births))).task child = none :=
      (World.task_setTask_of_ne _ _ hne).trans hfree
    exact h.congr (h.born hparent hfree' (t := t.newborn _ _ rsp w.births) rfl) rfl rfl
  | @exec p leader t old regs image ht hstate hnr hold htgid hleader hdead halone =>
    -- a thread that executes a program takes over the pid of its leader
    by_cases hp : leader = p
    · subst hp
      cases hold.symm.trans ht
      refine h.congr (h.change hw ht (goes_exec t t leader w.nextMm regs)) ?_ rfl
      exact Function.update_idem ..
    · have hold' : (w.setTask p none).task leader = some old :=
        (World.task_setTask_of_ne _ _ hp).trans hold
      exact h.congr (h.change (h.reap hw) hold' (goes_exec t old p w.nextMm regs)) rfl rfl
  | signal ht hstate => exact h.change hw ht (goes_moves (.signal _ _ hstate))
  | die ht hlive hstatus => exact h.change hw ht (goes_moves (.die hlive hstatus))
  | store => exact h.congr hw rfl rfl

theorem Endures.lasts (h : Endures J) : Lasts J where
  congr := h.congr
  moved := h.moved
  poke hw ht _ := h.change hw ht ⟨rfl, .inr ⟨rfl, id⟩⟩
  setregs hw ht _ := h.change hw ht ⟨rfl, .inr ⟨rfl, id⟩⟩
  resume hw ht _ := h.change hw ht (goes_resume _ _ 0)
  report hw ht hstate :=
    h.change hw ht ⟨rfl, .inr ⟨rfl, fun hentry => (stop?_stopped hstate).trans hentry⟩⟩
  reap := h.reap

end endures

/-! ### Births -/

/-- Births are handed out in order, and no two tasks have the same. -/
structure BirthsOk (w : World) : Prop where
  lt : ∀ q t, w.task q = some t → t.birth < w.births
  unique : ∀ q q' t t', w.task q = some t → w.task q' = some t' → t.birth = t'.birth → q = q'

/-- Every task with the birth has the pid, and has entered at least `n` calls. -/
def Since (pid : PidT) (birth n : Nat) (w : World) : Prop :=
  birth < w.births ∧ ∀ q t, w.task q = some t → t.birth = birth → q = pid ∧ n ≤ t.calls

/-- The `n`-th call of the task with the birth is behind its entry stop. -/
def Spent (birth n : Nat) (w : World) : Prop :=
  birth < w.births ∧ ∀ q t, w.task q = some t → t.birth = birth →
    n < t.calls ∨ (n = t.calls ∧ t.stop? ≠ some .syscallEntry)

variable {pid : PidT} {birth n : Nat}

/-- A property of the task with a birth that stays as it goes on. -/
theorem endures_of_birth {G : PidT → Task → Prop}
    (hG : ∀ q t t', t.GoesTo t' → G q t → G q t') :
    Endures fun w => birth < w.births ∧ ∀ q t, w.task q = some t → t.birth = birth → G q t where
  congr h htask hbirths := by
    rw [htask, hbirths]
    exact h
  change := by
    rintro w p t t' ⟨hlt, h⟩ ht hgoes
    refine ⟨hlt, fun q u hu hbirth => ?_⟩
    by_cases hq : q = p
    · subst hq
      rw [World.task_setTask_self] at hu
      cases hu
      exact hG q t t' hgoes (h q t ht (hgoes.1.symm.trans hbirth))
    · rw [World.task_setTask_of_ne _ _ hq] at hu
      exact h q u hu hbirth
  reap := by
    rintro w p ⟨hlt, h⟩
    refine ⟨hlt, fun q u hu hbirth => ?_⟩
    by_cases hq : q = p
    · subst hq
      rw [World.task_setTask_self] at hu
      cases hu
    · rw [World.task_setTask_of_ne _ _ hq] at hu
      exact h q u hu hbirth
  born := by
    rintro w p t ⟨hlt, h⟩ hfree ht
    refine ⟨Nat.lt_succ_of_lt hlt, fun q u hu hbirth => ?_⟩
    by_cases hq : q = p
    · subst hq
      have hself : u = t := Option.some.inj (hu.symm.trans (World.task_setTask_self ..))
      subst hself
      omega
    · exact h q u ((World.task_setTask_of_ne _ _ hq).symm.trans hu) hbirth

theorem endures_since : Endures (Since pid birth n) :=
  -- the count only grows
  endures_of_birth fun q t t' hgoes ⟨hq, hn⟩ => ⟨hq, by rcases hgoes.2 with h | h <;> omega⟩

theorem endures_spent : Endures (Spent birth n) := by
  refine endures_of_birth fun q t t' hgoes hspent => ?_
  -- a further call was entered, or the task stays behind the entry of this one
  rcases hgoes.2 with hmore | ⟨hsame, hentry⟩
  · rcases hspent with hlt | ⟨heq, -⟩ <;> exact .inl (by omega)
  · rw [hsame]
    exact hspent.imp_right fun ⟨heq, hne⟩ => ⟨heq, fun hstop => hne (hentry hstop)⟩

theorem endures_birthsOk : Endures BirthsOk where
  congr h htask hbirths := by
    constructor
    · rw [htask, hbirths]
      exact h.lt
    · rw [htask]
      exact h.unique
  change := by
    intro w p t t' h ht hgoes
    -- the births are as they were
    have hbefore : ∀ q u, (w.setTask p (some t')).task q = some u →
        ∃ v, w.task q = some v ∧ v.birth = u.birth := by
      intro q u hu
      by_cases hq : q = p
      · subst hq
        rw [World.task_setTask_self] at hu
        cases hu
        exact ⟨t, ht, hgoes.1.symm⟩
      · rw [World.task_setTask_of_ne _ _ hq] at hu
        exact ⟨u, hu, rfl⟩
    constructor
    · intro q u hu
      obtain ⟨v, hv, hbirth⟩ := hbefore q u hu
      exact hbirth ▸ h.lt q v hv
    · intro q q' u u' hu hu' hsame
      obtain ⟨v, hv, hbirth⟩ := hbefore q u hu
      obtain ⟨v', hv', hbirth'⟩ := hbefore q' u' hu'
      exact h.unique q q' v v' hv hv' (by rw [hbirth, hbirth', hsame])
  reap := by
    intro w p h
    have hbefore : ∀ q u, (w.setTask p none).task q = some u → w.task q = some u := by
      intro q u hu
      by_cases hq : q = p
      · subst hq
        rw [World.task_setTask_self] at hu
        cases hu
      · rwa [World.task_setTask_of_ne _ _ hq] at hu
    exact ⟨fun q u hu => h.lt q u (hbefore q u hu), fun q q' u u' hu hu' =>
      h.unique q q' u u' (hbefore q u hu) (hbefore q' u' hu')⟩
  born := by
    intro w p t h hfree hbirth
    -- a task is the new one, or has an older birth
    have hcases : ∀ q u, (w.setTask p (some t)).task q = some u →
        (q = p ∧ u.birth = w.births) ∨ (w.task q = some u ∧ u.birth < w.births) := by
      intro q u hu
      by_cases hq : q = p
      · subst hq
        rw [World.task_setTask_self] at hu
        cases hu
        exact .inl ⟨rfl, hbirth⟩
      · rw [World.task_setTask_of_ne _ _ hq] at hu
        exact .inr ⟨hu, h.lt q u hu⟩
    constructor
    · intro q u hu
      have hlt : u.birth < w.births + 1 := by
        rcases hcases q u hu with ⟨-, hnew⟩ | ⟨-, hold⟩ <;> omega
      exact hlt
    · intro q q' u u' hu hu' hsame
      rcases hcases q u hu with ⟨rfl, hnew⟩ | ⟨hu, hold⟩
      · rcases hcases q' u' hu' with ⟨rfl, -⟩ | ⟨-, hold'⟩
        · rfl
        · omega
      · rcases hcases q' u' hu' with ⟨rfl, hnew'⟩ | ⟨hu', -⟩
        · omega
        · exact h.unique q q' u u' hu hu' hsame

/-- The call that a task is in. -/
theorem BirthsOk.since {w : World} {t : Task} (h : BirthsOk w) (ht : w.task pid = some t) :
    Since pid t.birth t.calls w :=
  ⟨h.lt pid t ht, fun q u hu hbirth => by
    obtain rfl := h.unique q pid u t hu ht hbirth
    cases ht.symm.trans hu
    exact ⟨rfl, Nat.le_refl _⟩⟩

/-- A task that is parked has left its entry stop. -/
theorem Since.spent {w : World} (h : Since pid birth n w) (hparked : Only pid Task.Parked w) :
    Spent birth n w := by
  refine ⟨h.1, fun q t ht hbirth => ?_⟩
  obtain ⟨rfl, hn⟩ := h.2 q t ht hbirth
  rcases Nat.lt_or_eq_of_le hn with hlt | heq
  · exact .inl hlt
  · refine .inr ⟨heq, fun hentry => ?_⟩
    exact (hparked t ht).of_stop? hentry rfl

/-- A call that is spent does not stand at its entry stop. -/
theorem Spent.not_entry {w : World} {t : Task} (h : Spent t.birth t.calls w)
    (ht : w.task pid = some t) :
    t.stop? ≠ some .syscallEntry := by
  rcases h.2 pid t ht rfl with hlt | ⟨-, hne⟩
  · exact absurd hlt (Nat.lt_irrefl _)
  · exact hne

end Reproduce.Linux
