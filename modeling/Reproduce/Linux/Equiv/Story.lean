import Reproduce.Linux.Equiv.Told

/-!
# One story

The history of the world and the trace of the tracer are one story: the moves with number `n` came
right before the `n`-th query (`movesBefore`).  `Numbered` says so of a state between two queries,
and `runMoves_recorded` says which moves the next query adds.
-/

namespace Reproduce.Linux

open Bytes Effect

/-- The number of queries, which is the number of the next one. -/
def queries : List (Event World) → Nat
  | [] => 0
  | .ptrace .. :: older | .wait .. :: older => queries older + 1
  | .malloc .. :: older | .call .. :: older => queries older

/-- The moves that came right before a query, newest first. -/
def movesBefore (history : List (Nat × Move)) (n : Nat) : List Move :=
  (history.filter fun x => x.1 = n).map Prod.snd

variable {history : List (Nat × Move)} {x : Nat × Move} {trace : List (Event World)}
  {w w' : World} {m : Move} {r : Request}

theorem movesBefore_cons_of_ne {n : Nat} (h : x.1 ≠ n) :
    movesBefore (x :: history) n = movesBefore history n := by
  rw [movesBefore, List.filter_cons_of_neg (by simpa using h), movesBefore]

theorem movesBefore_cons_self (n : Nat) (m : Move) :
    movesBefore ((n, m) :: history) n = m :: movesBefore history n := by
  rw [movesBefore, List.filter_cons_of_pos (by simp), List.map_cons, movesBefore]

/-- No move that happened has a number that is still to come. -/
theorem movesBefore_of_lt {n : Nat} (h : ∀ x ∈ history, x.1 < n) : movesBefore history n = [] := by
  rw [movesBefore, List.map_eq_nil_iff, List.filter_eq_nil_iff]
  intro x hx
  simpa using (h x hx).ne

/-- Later moves have other numbers. -/
theorem movesBefore_append {new : List (Nat × Move)} {n : Nat} (h : ∀ x ∈ new, n < x.1) :
    movesBefore (new ++ history) n = movesBefore history n := by
  induction new with
  | nil => rfl
  | cons x new ih =>
    rw [List.cons_append, movesBefore_cons_of_ne (h x (.head _)).ne']
    exact ih fun y hy => h y (.tail _ hy)

theorem queries_suffix {trace' : List (Event World)} (h : trace <:+ trace') :
    queries trace ≤ queries trace' := by
  obtain ⟨newer, rfl⟩ := h
  induction newer with
  | nil => exact Nat.le_refl _
  | cons e newer ih =>
    match e with
    | .ptrace .. | .wait .. => exact Nat.le_succ_of_le ih
    | .malloc .. | .call .. => exact ih

/-- The history of a world in which the moves before the next query have not begun. -/
structure Numbered (trace : List (Event World)) (w : World) : Prop where
  tick : w.tick = queries trace
  past : ∀ x ∈ w.history, x.1 < queries trace

theorem tick_perform (w : World) (t : Task) (r : Request) : (w.perform t r).2.tick = w.tick := by
  cases r with
  | peek pid place =>
    rw [perform_peek_snd]
  | pokedata pid addr data =>
    rcases perform_poke_snd w t pid addr data with hsame | ⟨m, hpoke⟩
    · rw [hsame]
    · rw [hpoke]
      unfold World.countPoke
      split <;> rfl
  | getregs pid => rfl
  | setregs pid regs => rfl
  | syscall pid data => unfold World.perform; dsimp only; split <;> rfl
  | geteventmsg pid => rw [perform_geteventmsg_snd]

/-- The moves before the next query are added to the history with its number. -/
theorem runMoves_recorded {P : List Move → World → Prop} (hw : P [] w)
    (hstep : ∀ ms w₁ m w₂, P ms w₁ → Moved w₁ m w₂ →
      P (m :: ms) { w₂ with history := (w₁.tick, m) :: w₁.history }) (moves : List Move) :
    ∃ ms, (w.runMoves moves).history = ms.map (Prod.mk w.tick) ++ w.history ∧
      P ms (w.runMoves moves) := by
  have hrun := @runMoves_induction (fun w' => w'.tick = w.tick ∧
    ∃ ms, w'.history = ms.map (Prod.mk w.tick) ++ w.history ∧ P ms w') moves
    (fun w₁ m w₂ _ h hmoved => ?_) w ⟨rfl, [], rfl, hw⟩
  · exact hrun.2
  · obtain ⟨htick, ms, hhistory, hP⟩ := h
    refine ⟨(tick_moved hmoved).trans htick, m :: ms, ?_, hstep ms w₁ m w₂ hP hmoved⟩
    rw [List.map_cons, List.cons_append, ← hhistory, htick]

theorem movesBefore_recorded {n : Nat} (h : ∀ x ∈ history, x.1 < n) (ms : List Move) :
    movesBefore (ms.map (Prod.mk n) ++ history) n = ms := by
  induction ms with
  | nil => exact movesBefore_of_lt h
  | cons m ms ih => rw [List.map_cons, List.cons_append, movesBefore_cons_self, ih]

variable (env : Env)

/-- What the moves before the next query keep, if the list of them grows with each. -/
theorem Numbered.recorded (hn : Numbered trace w) {P : List Move → World → Prop} (hw : P [] w)
    (hstep : ∀ ms w₁ m w₂, P ms w₁ → Moved w₁ m w₂ →
      P (m :: ms) { w₂ with history := (w₁.tick, m) :: w₁.history }) (q : Query) :
    ∃ ms, (w.asked env q).history = ms.map (Prod.mk (queries trace)) ++ w.history ∧
      movesBefore (w.asked env q).history (queries trace) = ms ∧
      (∀ x ∈ ms.map (Prod.mk (queries trace)), queries trace ≤ x.1) ∧
      P ms (w.runMoves (env w.tick q).moves) := by
  obtain ⟨ms, hhistory, hP⟩ := runMoves_recorded hw hstep (env w.tick q).moves
  have hhistory' : (w.asked env q).history =
      ms.map (Prod.mk (queries trace)) ++ w.history := hn.tick ▸ hhistory
  refine ⟨ms, hhistory', ?_, fun x hx => ?_, hP⟩
  · rw [hhistory']
    exact movesBefore_recorded hn.past ms
  · obtain ⟨m, -, rfl⟩ := List.mem_map.mp hx
    exact Nat.le_refl _

theorem Numbered.asked (h : Numbered trace w) (q : Query) :
    (w.asked env q).tick = queries trace + 1 ∧
      ∃ new, (w.asked env q).history = new ++ w.history ∧ ∀ x ∈ new, x.1 = queries trace := by
  obtain ⟨ms, hhistory, -⟩ := h.recorded env (P := fun _ _ => True) trivial
    (fun _ _ _ _ _ _ => trivial) q
  refine ⟨?_, _, hhistory, fun x hx => ?_⟩
  · rw [asked_eq_ticked, World.ticked, tick_runMoves, h.tick]
  · obtain ⟨m, -, rfl⟩ := List.mem_map.mp hx
    rfl

/-- After the answer to a query. -/
theorem Numbered.answered {e : Event World} (h : Numbered trace w) {q : Query}
    (htick : w'.tick = (w.asked env q).tick) (hhistory : w'.history = (w.asked env q).history)
    (he : queries (e :: trace) = queries trace + 1) : Numbered (e :: trace) w' := by
  obtain ⟨hasked, new, hnew, hx⟩ := h.asked env q
  refine ⟨htick.trans (hasked.trans he.symm), fun x hmem => ?_⟩
  rw [hhistory, hnew] at hmem
  rw [he]
  rcases List.mem_append.mp hmem with hmem | hmem
  · exact (hx x hmem).trans_lt (Nat.lt_succ_self _)
  · exact Nat.lt_succ_of_lt (h.past x hmem)

theorem tick_ptrace (w : World) (r : Request) :
    (World.ptrace env r w).2.tick = (w.asked env (.ptrace r)).tick := by
  rcases ptrace_performed env w r with ⟨t, -, -, hrun⟩ | ⟨-, hrun⟩
  · rw [hrun, tick_perform]
  · rw [hrun]

theorem tick_waitpid (w : World) (target : WaitTarget) :
    (World.waitpid env target w).2.tick = (w.asked env (.wait target)).tick := by
  by_cases hanswer : ∃ pid status, (World.waitpid env target w).1 = some (.ok (pid, status))
  · obtain ⟨pid, status, hanswer⟩ := hanswer
    have hreported := (waitpid_reported env hanswer).1
    generalize (World.waitpid env target w).2 = w' at hreported
    cases hreported <;> rfl
  · rw [waitpid_unreported env fun pid status h => hanswer ⟨pid, status, h⟩]

/-! ### Going on -/

/-- The story goes on: what is over stays as it was. -/
structure Onward (s s' : Tracer World) : Prop where
  numbered : Numbered s.trace s.os → Numbered s'.trace s'.os
  trace : s.trace <:+ s'.trace
  history : Numbered s.trace s.os →
    ∃ new, s'.os.history = new ++ s.os.history ∧ ∀ x ∈ new, queries s.trace ≤ x.1

instance : IsPreorder (Tracer World) Onward where
  refl s := ⟨id, List.suffix_rfl, fun _ => ⟨[], rfl, List.forall_mem_nil _⟩⟩
  trans s₁ s₂ s₃ h h' := by
    refine ⟨fun hn => h'.numbered (h.numbered hn), h.trace.trans h'.trace, fun hn => ?_⟩
    obtain ⟨new, hnew, hle⟩ := h.history hn
    obtain ⟨new', hnew', hle'⟩ := h'.history (h.numbered hn)
    refine ⟨new' ++ new, by rw [hnew', hnew, List.append_assoc], fun x hx => ?_⟩
    rcases List.mem_append.mp hx with hx | hx
    · exact (queries_suffix h.trace).trans (hle' x hx)
    · exact hle x hx

theorem Onward.trans {s₁ s₂ s₃ : Tracer World} (h : Onward s₁ s₂) (h' : Onward s₂ s₃) :
    Onward s₁ s₃ := IsPreorder.toIsTrans.trans _ _ _ h h'

variable {s s' : Tracer World}

/-- The tracer does something by itself. -/
theorem onward_own (hos : s'.os = s.os) (htrace : s.trace <:+ s'.trace)
    (hqueries : queries s'.trace = queries s.trace) : Onward s s' where
  numbered hn := ⟨by rw [hos, hqueries, hn.tick], by rw [hos, hqueries]; exact hn.past⟩
  trace := htrace
  history _ := ⟨[], by rw [hos]; rfl, List.forall_mem_nil _⟩

/-- A query is answered. -/
theorem onward_answered {e : Event World} {q : Query} (htrace : s'.trace = e :: s.trace)
    (htick : s'.os.tick = (s.os.asked env q).tick)
    (hhistory : s'.os.history = (s.os.asked env q).history)
    (he : queries (e :: s.trace) = queries s.trace + 1) : Onward s s' where
  numbered hn := htrace ▸ hn.answered env htick hhistory he
  trace := ⟨[e], htrace.symm⟩
  history hn := by
    obtain ⟨-, new, hnew, hx⟩ := hn.asked env q
    exact ⟨new, hhistory.trans hnew, fun x hmem => (hx x hmem).ge⟩

theorem onward_asked (s : Tracer World) (r : Request) : Onward s (s.asked (kernel env) r) :=
  onward_answered env rfl (tick_ptrace env s.os r) (history_ptrace env s.os r) rfl

theorem onward_waited (s : Tracer World) (target : WaitTarget) :
    Onward s (s.waited (kernel env) target) :=
  onward_answered env rfl (tick_waitpid env s.os target) (history_waitpid env s.os target) rfl

theorem onward_waitpid (target : WaitTarget) : Within Onward (waitpid (kernel env) target) := by
  intro s
  rw [waitpid_apply]
  split <;> exact onward_waited env s _

theorem onward_steps : Steps (kernel env) Onward where
  ptrace r _ s := onward_asked env s r
  wait pid := onward_waitpid env (some pid)
  malloc size s := by
    unfold Reproduce.malloc
    split <;> exact onward_own rfl (List.suffix_cons _ _) rfl
  note s c _ := onward_own rfl (List.suffix_cons _ _) rfl
  own _ _ _ _ _ := onward_own rfl List.suffix_rfl rfl

theorem onward_deleted (s : Tracer World) (pid : PidT) : Onward s (s.deleted pid) :=
  onward_own (os_deleted pid s) (trace_deleted pid s ▸ List.suffix_cons _ _)
    (by rw [trace_deleted]; rfl)

theorem onward_handleSyscall (child : Ptr) (regs : UserRegsStruct) :
    Within Onward (handleSyscall (kernel env) child regs) :=
  (onward_steps env).within_handleSyscall
    (fun _ _ _ => onward_own rfl (List.suffix_cons _ _) rfl) child regs

theorem onward_turn {scan : Nat} {r : Unit ⊕ Unit}
    (h : handleEventTurn (kernel env) scan () s = .ok r s') : Onward s s' :=
  ((onward_steps env).within_handleEventTurn (onward_waitpid env none)
    (fun _ _ _ => onward_own rfl (List.suffix_cons _ _) rfl) scan).ok h

end Reproduce.Linux
