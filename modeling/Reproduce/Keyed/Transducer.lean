import Mathlib.Logic.Embedding.Basic

/-!
# Deterministic cells under keys

A `Transducer` answers each input with an output and moves on to its next state.  A system that
keeps one transducer under every key can be observed through a log, newest entry first: under which
key something was put in and what came out (`step`), and when the transducer of a key was started
anew (`reset`).  `session k log` is what happened under `k` since the latest reset of `k`.

The log is *explained* by the transducer when the outputs of every session are those that the
transducer gives to its inputs.  Two explained logs cannot be told apart by sessions with the same
inputs (`Explains.outputs_eq`), whatever the keys are called and whatever happens under other keys.
-/

namespace Keyed

variable {κ σ ι ω : Type}

structure Transducer (σ ι ω : Type) where
  init : σ
  next : σ → ι → σ
  out : σ → ι → ω

inductive Entry (κ ι ω : Type) where
  | reset (k : κ)
  | step (k : κ) (i : ι) (o : ω)

/-- The inputs and outputs under a key since its latest reset. -/
def session [DecidableEq κ] (k : κ) : List (Entry κ ι ω) → List (ι × ω)
  | [] => []
  | .reset k' :: log => if k' = k then [] else session k log
  | .step k' i o :: log => if k' = k then (i, o) :: session k log else session k log

section session

variable [DecidableEq κ] {k k' : κ} {i : ι} {o : ω} {log : List (Entry κ ι ω)}

@[simp] theorem session_reset_self : session k (.reset k :: log) = [] := if_pos rfl

theorem session_reset_of_ne (h : k' ≠ k) : session k (.reset k' :: log) = session k log := if_neg h

@[simp] theorem session_step_self : session k (.step k i o :: log) = (i, o) :: session k log :=
  if_pos rfl

theorem session_step_of_ne (h : k' ≠ k) : session k (.step k' i o :: log) = session k log :=
  if_neg h

end session

namespace Transducer

variable (T : Transducer σ ι ω)

/-- The state after some inputs, newest first. -/
def state : List ι → σ
  | [] => T.init
  | i :: is => T.next (state is) i

/-- The outputs to some inputs, newest first. -/
def outputs : List ι → List ω
  | [] => []
  | i :: is => T.out (T.state is) i :: outputs is

variable [DecidableEq κ]

/-- The state of the cell under a key. -/
def stateAt (log : List (Entry κ ι ω)) (k : κ) : σ := T.state ((session k log).map Prod.fst)

/-- The outputs of every session are those of the transducer. -/
def Explains (log : List (Entry κ ι ω)) : Prop :=
  ∀ k, (session k log).map Prod.snd = T.outputs ((session k log).map Prod.fst)

variable {T} {log : List (Entry κ ι ω)}

theorem explains_nil : T.Explains ([] : List (Entry κ ι ω)) := fun _ => rfl

theorem Explains.reset (h : T.Explains log) (k : κ) : T.Explains (.reset k :: log) := by
  intro k'
  by_cases hk : k = k'
  · rw [hk, session_reset_self]
    rfl
  · rw [session_reset_of_ne hk]
    exact h k'

theorem Explains.step (h : T.Explains log) {k : κ} {i : ι} {o : ω}
    (ho : o = T.out (T.stateAt log k) i) : T.Explains (.step k i o :: log) := by
  intro k'
  -- the session of the key is longer by the call; all others are what they were
  by_cases hk : k = k'
  · subst hk
    rw [session_step_self, List.map_cons, List.map_cons, h k, ho]
    rfl
  · rw [session_step_of_ne hk]
    exact h k'

theorem stateAt_reset_self (k : κ) : T.stateAt (.reset k :: log) k = T.init := by
  rw [stateAt, session_reset_self]
  rfl

theorem stateAt_reset_of_ne {k k' : κ} (h : k' ≠ k) :
    T.stateAt (.reset k' :: log) k = T.stateAt log k := by
  rw [stateAt, session_reset_of_ne h]
  rfl

theorem stateAt_step_self (k : κ) (i : ι) (o : ω) :
    T.stateAt (.step k i o :: log) k = T.next (T.stateAt log k) i := by
  rw [stateAt, session_step_self]
  rfl

theorem stateAt_step_of_ne {k k' : κ} (h : k' ≠ k) (i : ι) (o : ω) :
    T.stateAt (.step k' i o :: log) k = T.stateAt log k := by
  rw [stateAt, session_step_of_ne h]
  rfl

/-- Equal inputs under a key and its image give equal outputs. -/
theorem Explains.outputs_eq {κ' : Type} [DecidableEq κ'] {log' : List (Entry κ' ι ω)}
    (h : T.Explains log) (h' : T.Explains log') (ρ : κ ↪ κ') {k : κ}
    (hinputs : (session k log).map Prod.fst = (session (ρ k) log').map Prod.fst) :
    (session k log).map Prod.snd = (session (ρ k) log').map Prod.snd := by
  rw [h k, h' (ρ k), hinputs]

end Transducer

end Keyed
