import Reproduce.Effect.Triple

/-!
# Postconditions that hold unless something went wrong

`Unless R B P m Q`: when `m` returns from a state with `P`, it returns with `Q`, unless `B`
relates the initial and the final state.  `B` says that something went wrong in between; it is
absorbed by the preorder `R` (`Absorbs`), which `m` has to respect, so that nothing that comes
before or after can undo it.
-/

namespace Effect

variable {ε σ α β : Type}

/-- What went wrong stays wrong. -/
class Absorbs (R B : σ → σ → Prop) : Prop extends IsPreorder σ R where
  before : ∀ {s s' s''}, R s s' → B s' s'' → B s s''
  after : ∀ {s s' s''}, B s s' → R s' s'' → B s s''

structure Unless (R B : σ → σ → Prop) (P : σ → Prop) (m : EStateM ε σ α) (Q : α → σ → Prop) :
    Prop where
  within : Within R m
  post : ∀ s a s', P s → m s = .ok a s' → Q a s' ∨ B s s'

/-- `P` is kept unless something goes wrong. -/
def Keeps (R B : σ → σ → Prop) (P : σ → Prop) (s s' : σ) : Prop :=
  R s s' ∧ (P s → P s' ∨ B s s')

variable {R B : σ → σ → Prop} {P P' : σ → Prop} {Q Q' : α → σ → Prop} {S : β → σ → Prop}
  {m : EStateM ε σ α} {f : α → EStateM ε σ β}

instance [Absorbs R B] : IsPreorder σ (Keeps R B P) where
  refl s := ⟨Std.Refl.refl s, .inl⟩
  trans := by
    rintro s s' s'' ⟨hR, h⟩ ⟨hR', h'⟩
    refine ⟨IsTrans.trans _ _ _ hR hR', fun hs => ?_⟩
    rcases h hs with hs' | hB
    · exact (h' hs').imp_right (Absorbs.before hR)
    · exact .inr (Absorbs.after hB hR')

namespace Unless

theorem of_keeps (h : Within (Keeps R B P) m) : Unless R B P m (fun _ => P) where
  within s := (h s).1
  post _ _ _ hs hm := (h.ok hm).2 hs

theorem pure [Absorbs R B] {a : α} (h : ∀ s, P s → Q a s) :
    Unless R B P (Pure.pure a : EStateM ε σ α) Q where
  within := Within.pure a
  post := by
    rintro s _ _ hs ⟨⟩
    exact .inl (h s hs)

theorem throw [Absorbs R B] {e : ε} : Unless R B P (MonadExcept.throw e : EStateM ε σ α) Q where
  within := Within.throw e
  post := by
    rintro s _ _ hs ⟨⟩

theorem bind [Absorbs R B] (hm : Unless R B P m Q) (hf : ∀ a, Unless R B (Q a) (f a) S) :
    Unless R B P (m >>= f) S where
  within := Within.bind hm.within fun a => (hf a).within
  post := by
    intro s b s'' hs h
    obtain ⟨a, s', h₁, h₂⟩ := bind_eq_ok.mp h
    -- the exception is inherited from the first part, or arises in the second
    rcases hm.post s a s' hs h₁ with hs' | hB
    · exact ((hf a).post s' b s'' hs' h₂).imp_right (Absorbs.before (hm.within.ok h₁))
    · exact .inr (Absorbs.after hB ((hf a).within.ok h₂))

theorem ite {c : Prop} [Decidable c] {m' : EStateM ε σ α} (ht : c → Unless R B P m Q)
    (hf : ¬c → Unless R B P m' Q) : Unless R B P (if c then m else m') Q := by
  split
  · next h => exact ht h
  · next h => exact hf h

theorem conseq (h : Unless R B P m Q) (hP : ∀ s, P' s → P s) (hQ : ∀ a s, Q a s → Q' a s) :
    Unless R B P' m Q' where
  within := h.within
  post s a s' hs hm := (h.post s a s' (hP s hs) hm).imp_left (hQ a s')

/-- A fact that is not about the state is carried along. -/
theorem frame (h : Unless R B P m Q) {c : Prop} :
    Unless R B (fun s => c ∧ P s) m (fun a s => c ∧ Q a s) where
  within := h.within
  post s a s' hs hm := (h.post s a s' hs.2 hm).imp_left fun hq => ⟨hs.1, hq⟩

end Unless

end Effect
