import Mathlib.Order.Defs.Unbundled

/-!
# Pre- and postconditions of stateful programs that can stop

Programs are `EStateM ε σ α`: they change a state `σ` and either return an `α` or stop with an `ε`,
keeping the state in which they stopped.

* `Triple P m Q E`: from a state with `P`, `m` returns with `Q` or stops with `E`.
* `Within R m`: the initial and the final state of `m` are related by `R`, however `m` ends.  For a
  preorder `R` this composes without any mention of values.
* `loop stop body n b` runs `body` until it returns `Sum.inr`, at most `n` times.  The induction
  over the iterations is done here once: `Triple.loop` and `Within.loop` ask for one iteration only.
-/

namespace Effect

variable {ε σ α β γ : Type}

/-- The state in which a program ended, whether it returned or stopped. -/
def finalState : EStateM.Result ε σ α → σ
  | .ok _ s => s
  | .error _ s => s

@[simp] theorem finalState_ok (a : α) (s : σ) :
    finalState (EStateM.Result.ok a s : EStateM.Result ε σ α) = s := rfl

@[simp] theorem finalState_error (e : ε) (s : σ) :
    finalState (EStateM.Result.error e s : EStateM.Result ε σ α) = s := rfl

/-! ### Running a sequence -/

theorem pure_apply (a : α) (s : σ) : (pure a : EStateM ε σ α) s = .ok a s := rfl

theorem bind_apply_ok {m : EStateM ε σ α} {f : α → EStateM ε σ β} {s s' : σ} {a : α}
    (h : m s = .ok a s') : (m >>= f) s = f a s' := by
  show EStateM.bind m f s = _
  unfold EStateM.bind
  rw [h]

theorem bind_apply_error {m : EStateM ε σ α} {f : α → EStateM ε σ β} {s s' : σ} {e : ε}
    (h : m s = .error e s') : (m >>= f) s = .error e s' := by
  show EStateM.bind m f s = _
  unfold EStateM.bind
  rw [h]

/-- A sequence returns when both of its parts do. -/
theorem bind_eq_ok {m : EStateM ε σ α} {f : α → EStateM ε σ β} {s s'' : σ} {b : β} :
    (m >>= f) s = .ok b s'' ↔ ∃ a s', m s = .ok a s' ∧ f a s' = .ok b s'' := by
  cases h : m s with
  | ok a s' => simp [bind_apply_ok h, and_assoc]
  | error e s' => simp [bind_apply_error h]

/-- A sequence stops in its first part or, after it returned, in its second. -/
theorem bind_eq_error {m : EStateM ε σ α} {f : α → EStateM ε σ β} {s s'' : σ} {e : ε} :
    (m >>= f) s = .error e s'' ↔
      m s = .error e s'' ∨ ∃ a s', m s = .ok a s' ∧ f a s' = .error e s'' := by
  cases h : m s with
  | ok a s' => simp [bind_apply_ok h, and_assoc]
  | error e s' => simp [bind_apply_error h]

/-! ### Triples -/

/-- From a state with `P`, `m` returns with `Q` or stops with `E`. -/
def Triple (P : σ → Prop) (m : EStateM ε σ α) (Q : α → σ → Prop) (E : ε → σ → Prop) : Prop :=
  ∀ s, P s → match m s with
    | .ok a s' => Q a s'
    | .error e s' => E e s'

namespace Triple

variable {P P' : σ → Prop} {Q Q' : α → σ → Prop} {R : β → σ → Prop} {E E' : ε → σ → Prop}
  {m : EStateM ε σ α} {f : α → EStateM ε σ β}

theorem ok (h : Triple P m Q E) {s s' : σ} {a : α} (hs : P s) (hm : m s = .ok a s') : Q a s' := by
  have := h s hs
  rwa [hm] at this

theorem error (h : Triple P m Q E) {s s' : σ} {e : ε} (hs : P s) (hm : m s = .error e s') :
    E e s' := by
  have := h s hs
  rwa [hm] at this

/-- A triple is settled by looking at the two ways of ending. -/
theorem intro (hok : ∀ s a s', P s → m s = .ok a s' → Q a s')
    (herror : ∀ s e s', P s → m s = .error e s' → E e s') : Triple P m Q E := by
  intro s hs
  cases h : m s with
  | ok a s' => exact hok s a s' hs h
  | error e s' => exact herror s e s' hs h

theorem pure {a : α} (h : ∀ s, P s → Q a s) : Triple P (Pure.pure a) Q E := h

theorem throw {e : ε} (h : ∀ s, P s → E e s) : Triple P (MonadExcept.throw e) Q E := h

theorem bind (hm : Triple P m Q E) (hf : ∀ a, Triple (Q a) (f a) R E) :
    Triple P (m >>= f) R E := by
  refine intro ?_ ?_
  · intro s b s'' hs h
    obtain ⟨a, s', h₁, h₂⟩ := bind_eq_ok.mp h
    exact (hf a).ok (hm.ok hs h₁) h₂
  · intro s e s'' hs h
    rcases bind_eq_error.mp h with h₁ | ⟨a, s', h₁, h₂⟩
    · exact hm.error hs h₁
    · exact (hf a).error (hm.ok hs h₁) h₂

/-- What is known of the value alone. -/
theorem value (h : Triple P m Q E) {V : α → Prop} (hV : ∀ s a s', m s = .ok a s' → V a) :
    Triple P m (fun a s => V a ∧ Q a s) E :=
  intro (fun s a s' hs hm => ⟨hV s a s' hm, h.ok hs hm⟩) (fun _ _ _ hs hm => h.error hs hm)

theorem conseq (h : Triple P m Q E) (hP : ∀ s, P' s → P s) (hQ : ∀ a s, Q a s → Q' a s)
    (hE : ∀ e s, E e s → E' e s) : Triple P' m Q' E' :=
  intro (fun _ _ _ hs hm => hQ _ _ (h.ok (hP _ hs) hm))
    (fun _ _ _ hs hm => hE _ _ (h.error (hP _ hs) hm))

theorem ite {c : Prop} [Decidable c] {m' : EStateM ε σ α} (ht : c → Triple P m Q E)
    (hf : ¬c → Triple P m' Q E) : Triple P (if c then m else m') Q E := by
  split
  · next h => exact ht h
  · next h => exact hf h

/-- A fact that is kept is carried along. -/
theorem frame (h : Triple P m Q E) {F : σ → Prop} (hF : Triple F m (fun _ => F) E') :
    Triple (fun s => P s ∧ F s) m (fun a s => Q a s ∧ F s) E :=
  intro (fun _ _ _ hs hm => ⟨h.ok hs.1 hm, hF.ok hs.2 hm⟩) (fun _ _ _ hs hm => h.error hs.1 hm)

/-- What holds however the program ends. -/
theorem final (h : Triple P m Q E) {F : σ → Prop} (hQ : ∀ a s, Q a s → F s)
    (hE : ∀ e s, E e s → F s) {s : σ} (hs : P s) : F (finalState (m s)) := by
  cases hm : m s with
  | ok a s' => exact hQ a s' (h.ok hs hm)
  | error e s' => exact hE e s' (h.error hs hm)

end Triple

/-! ### Relations between the initial and the final state -/

/-- The initial and the final state of `m` are related by `R`, however `m` ends. -/
def Within (R : σ → σ → Prop) (m : EStateM ε σ α) : Prop := ∀ s, R s (finalState (m s))

namespace Within

variable {R R' : σ → σ → Prop} {m : EStateM ε σ α} {f : α → EStateM ε σ β}

theorem ok (h : Within R m) {s s' : σ} {a : α} (hm : m s = .ok a s') : R s s' := by
  have := h s
  rwa [hm] at this

theorem error (h : Within R m) {s s' : σ} {e : ε} (hm : m s = .error e s') : R s s' := by
  have := h s
  rwa [hm] at this

theorem pure [Std.Refl R] (a : α) : Within R (Pure.pure a : EStateM ε σ α) :=
  fun s => Std.Refl.refl s

theorem throw [Std.Refl R] (e : ε) : Within R (MonadExcept.throw e : EStateM ε σ α) :=
  fun s => Std.Refl.refl s

/-- What relates a state to the final state of `m`, relates it to that of `m >>= f`. -/
theorem bind_from [IsTrans σ R] {s₀ s : σ} (hm : R s₀ (finalState (m s)))
    (hf : ∀ a, Within R (f a)) : R s₀ (finalState ((m >>= f) s)) := by
  cases h : m s with
  | ok a s' =>
    rw [h] at hm
    rw [bind_apply_ok h]
    exact IsTrans.trans _ _ _ hm (hf a s')
  | error e s' =>
    rw [h] at hm
    rw [bind_apply_error h]
    exact hm

theorem bind [IsTrans σ R] (hm : Within R m) (hf : ∀ a, Within R (f a)) :
    Within R (m >>= f) :=
  fun s => bind_from (hm s) hf

/-- Where `m` ends is related to where `m >>= f` ends. -/
theorem bind_rest [Std.Refl R] (hf : ∀ a, Within R (f a)) (m : EStateM ε σ α) (s : σ) :
    R (finalState (m s)) (finalState ((m >>= f) s)) := by
  cases h : m s with
  | ok a s' =>
    rw [bind_apply_ok h]
    exact hf a s'
  | error e s' =>
    rw [bind_apply_error h]
    exact Std.Refl.refl s'

theorem mono (h : Within R m) (hR : ∀ s s', R s s' → R' s s') : Within R' m :=
  fun s => hR _ _ (h s)

theorem ite {c : Prop} [Decidable c] {m' : EStateM ε σ α} (ht : c → Within R m)
    (hf : ¬c → Within R m') : Within R (if c then m else m') := by
  split
  · next h => exact ht h
  · next h => exact hf h

/-- A fact that `m` keeps is carried along. -/
theorem frame {P F : σ → Prop} {Q : α → σ → Prop} {E : ε → σ → Prop} (h : Within R m)
    (hF : ∀ s s', R s s' → F s → F s') (hm : Triple P m Q E) :
    Triple (fun s => P s ∧ F s) m (fun a s => Q a s ∧ F s) E :=
  Triple.intro (fun s _ s' hs hrun => ⟨hm.ok hs.1 hrun, hF s s' (h.ok hrun) hs.2⟩)
    (fun _ _ _ hs hrun => hm.error hs.1 hrun)

end Within

/-- `P` is kept. -/
def Preserves (P : σ → Prop) (s s' : σ) : Prop := P s → P s'

instance (P : σ → Prop) : IsPreorder σ (Preserves P) where
  refl _ := id
  trans _ _ _ h h' := h' ∘ h

/-- What a program keeps, it returns and stops with. -/
theorem Within.triple {P : σ → Prop} {E : ε → σ → Prop} {m : EStateM ε σ α}
    (h : Within (Preserves P) m) (hE : ∀ e s, P s → E e s) : Triple P m (fun _ => P) E :=
  Triple.intro (fun _ _ _ hs hm => h.ok hm hs) (fun _ e s' hs hm => hE e s' (h.error hm hs))

/-- Returning a value does not change the state. -/
theorem finalState_bind_pure (m : EStateM ε σ α) (b : β) (s : σ) :
    finalState ((m >>= fun _ => pure b) s) = finalState (m s) := by
  cases h : m s with
  | ok a s' =>
    rw [bind_apply_ok h]
    rfl
  | error e s' =>
    rw [bind_apply_error h]
    rfl

/-! ### Loops -/

/-- Run `body` on `b`, then on what it returns, until it returns `Sum.inr`; after `n` iterations
stop with `stop`. -/
def loop (stop : ε) (body : β → EStateM ε σ (β ⊕ γ)) : Nat → β → EStateM ε σ γ
  | 0, _ => throw stop
  | n + 1, b => do
    match ← body b with
    | .inl b' => loop stop body n b'
    | .inr c => pure c

variable {stop : ε} {body : β → EStateM ε σ (β ⊕ γ)}

/-- An iteration that continues. -/
theorem loop_next {b b' : β} {s s' : σ} (h : body b s = .ok (.inl b') s') (n : Nat) :
    loop stop body (n + 1) b s = loop stop body n b' s' := bind_apply_ok h

/-- The last iteration. -/
theorem loop_done {b : β} {c : γ} {s s' : σ} (h : body b s = .ok (.inr c) s') (n : Nat) :
    loop stop body (n + 1) b s = .ok c s' := bind_apply_ok h

theorem Triple.loop {I : β → σ → Prop} {Q : γ → σ → Prop} {E : ε → σ → Prop}
    (hbody : ∀ b, Triple (I b) (body b)
      (fun r s => r.elim (fun b' => I b' s) (fun c => Q c s)) E)
    (hstop : ∀ b s, I b s → E stop s) (n : Nat) (b : β) :
    Triple (I b) (loop stop body n b) Q E := by
  -- over the iterations that are left
  induction n generalizing b with
  | zero => exact Triple.throw (hstop b)
  | succ n ih =>
    refine Triple.bind (hbody b) fun r => ?_
    cases r with
    | inl b' => exact ih b'
    | inr c => exact Triple.pure fun s h => h

/-- When every iteration that continues decreases `μ`, a bound above `μ` is never met. -/
theorem Triple.loop_variant {I : β → σ → Prop} {Q : γ → σ → Prop} {E : ε → σ → Prop} (μ : β → Nat)
    (hbody : ∀ b, Triple (I b) (body b)
      (fun r s => r.elim (fun b' => I b' s ∧ μ b' < μ b) (fun c => Q c s)) E)
    (n : Nat) (b : β) (hn : μ b < n) :
    Triple (I b) (Effect.loop stop body n b) Q E := by
  -- over the bound, which stays above the measure
  induction n generalizing b with
  | zero => exact absurd hn (Nat.not_lt_zero _)
  | succ n ih =>
    refine Triple.bind (hbody b) fun r => ?_
    cases r with
    | inl b' =>
      rintro s ⟨hI, hlt : μ b' < μ b⟩
      exact ih b' (by omega) s hI
    | inr c => exact Triple.pure fun s h => h

/-- The iterations of a loop that continue lead from `b` in `s` to `b'` in `s'`. -/
inductive Iterates (body : β → EStateM ε σ (β ⊕ γ)) : β → σ → β → σ → Prop
  | refl {b : β} {s : σ} : Iterates body b s b s
  | next {b b' b'' : β} {s s' s'' : σ} (h : Iterates body b s b' s')
      (hbody : body b' s' = .ok (.inl b'') s'') : Iterates body b s b'' s''

theorem Iterates.trans {b b' b'' : β} {s s' s'' : σ} (h : Iterates body b s b' s')
    (h' : Iterates body b' s' b'' s'') : Iterates body b s b'' s'' := by
  induction h' with
  | refl => exact h
  | next _ hbody ih => exact .next (ih h) hbody

/-- A loop that returns does so in its last iteration. -/
theorem loop_eq_ok {n : Nat} {b : β} {c : γ} {s s' : σ} (h : loop stop body n b s = .ok c s') :
    ∃ b' s₁, Iterates body b s b' s₁ ∧ body b' s₁ = .ok (.inr c) s' := by
  induction n generalizing b s with
  | zero => cases h
  | succ n ih =>
    obtain ⟨r, s₁, hbody, hrest⟩ := bind_eq_ok.mp h
    cases r with
    | inl b' =>
      obtain ⟨b'', s₂, hiterates, hlast⟩ := ih hrest
      exact ⟨b'', s₂, Iterates.trans (.next .refl hbody) hiterates, hlast⟩
    | inr c' =>
      cases hrest
      exact ⟨b, s, .refl, hbody⟩

/-- What every iteration keeps holds before each of them. -/
theorem Iterates.invariant {I : β → σ → Prop} {Q : γ → σ → Prop} {E : ε → σ → Prop} {b b' : β}
    {s s' : σ} (h : Iterates body b s b' s')
    (hbody : ∀ b, Triple (I b) (body b)
      (fun r s => r.elim (fun b' => I b' s) (fun c => Q c s)) E)
    (hs : I b s) : I b' s' := by
  induction h with
  | refl => exact hs
  | next _ hrun ih => exact (hbody _).ok (ih hs) hrun

theorem Within.loop {R : σ → σ → Prop} [IsPreorder σ R] (hbody : ∀ b, Within R (body b))
    (n : Nat) (b : β) : Within R (loop stop body n b) := by
  induction n generalizing b with
  | zero => exact Within.throw stop
  | succ n ih =>
    refine Within.bind (hbody b) fun r => ?_
    cases r with
    | inl b' => exact ih b'
    | inr c => exact Within.pure c

/-- What relates a state to the final state of the first iteration, relates it to that
of the loop. -/
theorem Within.loop_from {R : σ → σ → Prop} [IsPreorder σ R] (hbody : ∀ b, Within R (body b))
    {b : β} {s₀ s : σ} (hfirst : R s₀ (finalState (body b s))) (n : Nat) :
    R s₀ (finalState (Effect.loop stop body (n + 1) b s)) := by
  refine Within.bind_from hfirst fun r => ?_
  cases r with
  | inl b' => exact Within.loop hbody n b'
  | inr c => exact Within.pure c

end Effect
