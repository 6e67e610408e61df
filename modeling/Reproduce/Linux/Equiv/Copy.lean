import Reproduce.Linux.Equiv.Held
import Reproduce.Linux.Equiv.Emulation

/-!
# Handlers in an attended environment

`replace_buf` overwrites the memory of the process when it accepts the copy, and ends the tracer
otherwise (`triple_replaceBuf`); the loop invariant says that what was copied so far has been
overwritten and was accepted.  Cancelling a call and returning a value never fail.
-/

namespace Reproduce.Linux

open Bytes Effect

variable {env : Env} {pid : PidT} {table : List ChildProcess} {heap : Nat} {t : Task} {m : Memory}

/-! ### Copying a buffer -/

/-- What has been copied before offset `i`. -/
structure Copied (pid : PidT) (table : List ChildProcess) (heap : Nat) (t : Task) (m : Memory)
    (src : List Byte) (dest len i : Word) (s : Tracer World) : Prop where
  le : i.toNat ≤ len.toNat
  words : 8 ∣ i.toNat
  written : ∀ k, 8 * k < i.toNat →
    Memory.wordAll m.writable (dest + BitVec.ofNat 64 (8 * k)) = true
  tracked : Tracked pid table heap t (m.overwrite dest (src.take i.toNat)) s

theorem ofNat_toNat_word (i : Word) : BitVec.ofNat 64 i.toNat = i := by
  rw [BitVec.ofNat_toNat, BitVec.setWidth_eq]

/-- A word that cannot be written makes the whole copy impossible. -/
theorem not_accepts_of_word {src : List Byte} {dest i : Word} {len : Nat} (hi : 8 ∣ i.toNat)
    (hle : i.toNat + 8 ≤ len) {w : Word}
    (hpoke : (m.overwrite dest (src.take i.toNat)).poke (dest + i) w = none) :
    ¬m.Accepts dest len := by
  rintro ⟨hwords, -⟩
  obtain ⟨k, hk⟩ := hi
  have hword := hwords k (by omega)
  rw [← hk, ofNat_toNat_word] at hword
  unfold Memory.poke at hpoke
  rw [Memory.writable_overwrite, if_pos hword] at hpoke
  cases hpoke

theorem triple_srcWord {src : List Byte} {i : Nat} (hi : i + 8 ≤ src.length)
    (P : Tracer World → Prop) (E : Halt → Tracer World → Prop) :
    Triple P (srcWord src i) (fun word s => word = Memory.sourceWord src i ∧ P s) E := by
  unfold srcWord
  rw [if_pos hi]
  exact Triple.pure fun s hs => ⟨rfl, hs⟩

theorem triple_tailWord {src : List Byte} {i len : Nat} {word : Word} (hlen : len ≤ src.length)
    (P : Tracer World → Prop) (E : Halt → Tracer World → Prop) :
    Triple P (tailWord src i len word) (fun word' s =>
      word' = ofBytes (fun j => if i + j < len then src.getD (i + j) 0 else getByte word j) ∧ P s)
      E := by
  unfold tailWord
  rw [if_pos hlen]
  exact Triple.pure fun s hs => ⟨rfl, hs⟩

theorem triple_pokeWord (henv : Spared env pid t.mm) (hstop : t.isStopped = true)
    (hinitial : t.stop? ≠ some .initial) {src : List Byte} {len : Word} (hfits : Fits src len)
    (dest i : Word) :
    Triple (Copied pid table heap t m src dest len i)
      (pokeWord (kernel env) pid src dest len i)
      (fun r s => r.elim
        (fun i' => Copied pid table heap t m src dest len i' s ∧
          (len.toNat - i'.toNat) / 8 < (len.toNat - i.toNat) / 8)
        (fun i' => i' = some i ∧ len.toNat < i.toNat + 8 ∧
          Copied pid table heap t m src dest len i s))
      (fun e _ => e = .exit EXIT_FAILURE ∧ ¬m.Accepts dest len.toNat) := by
  intro s hs
  have hadd : (i + 8).toNat = i.toNat + 8 := toNat_add_eight (hs.le.trans hfits.small)
  have hsmall : len.toNat ≤ 2 ^ 63 - 1 := hfits.small
  refine Triple.ite (fun hle => ?_) (fun hgt => Triple.pure ?_) s hs
  · have hle' : i.toNat + 8 ≤ len.toNat := hadd ▸ BitVec.le_def.mp hle
    have hsrc : i.toNat + 8 ≤ src.length := hfits.length ▸ hle'
    refine Triple.bind (triple_srcWord hsrc _ _) fun word => ?_
    rintro s ⟨rfl, hs⟩
    refine Triple.bind (Triple.conseq (triple_poke henv hstop (dest + i) _)
      (fun s hs => hs) (fun _ _ hs => hs)
      (fun e _ he => ⟨he.1, not_accepts_of_word hs.words hle' he.2⟩)) (fun more => ?_) s hs.tracked
    refine Triple.ite (fun _ => Triple.pure ?_) (fun hmore => Triple.pure ?_)
    · -- the kernel took the word: one more word of the copy is done
      rintro s' ⟨-, m', hpoke, hs'⟩
      obtain ⟨hwritable, rfl⟩ := Memory.poke_eq_some.mp hpoke
      have hcopy := Memory.overwrite_take_word m dest hsrc (by rw [hfits.length]; omega)
      rw [ofNat_toNat_word] at hcopy
      rw [hcopy, poked_of_started hinitial] at hs'
      refine ⟨⟨?_, ?_, fun k hk => ?_, ?_⟩, ?_⟩
      · rw [hadd]
        exact hle'
      · rw [hadd]
        exact Nat.dvd_add hs.words (Nat.dvd_refl 8)
      · rw [hadd] at hk
        by_cases hlt : 8 * k < i.toNat
        · exact hs.written k hlt
        · obtain ⟨j, hj⟩ := hs.words
          have hkj : 8 * k = i.toNat := by omega
          rw [hkj, ofNat_toNat_word]
          exact hwritable
      · rw [hadd]
        exact hs'
      · rw [hadd]
        omega
    · rintro s' ⟨hmore', -⟩
      exact absurd hmore' hmore
  · -- fewer than eight bytes are left, and the loop is over
    intro s hs
    refine ⟨rfl, ?_, hs⟩
    have hnot : ¬(i + 8).toNat ≤ len.toNat := fun h => hgt (BitVec.le_def.mpr h)
    omega

/-- At the end of the loop all full words have been accepted. -/
theorem Copied.index {src : List Byte} {dest len i : Word} {s : Tracer World}
    (h : Copied pid table heap t m src dest len i s) (hlast : len.toNat < i.toNat + 8) :
    i.toNat = 8 * (len.toNat / 8) := by
  obtain ⟨k, hk⟩ := h.words
  have := h.le
  omega

theorem triple_pokeTail (henv : Spared env pid t.mm) (hstop : t.isStopped = true)
    (hinitial : t.stop? ≠ some .initial) {src : List Byte} {len : Word} (hfits : Fits src len)
    (dest i : Word) (hlast : len.toNat < i.toNat + 8) (hlt : i.toNat < len.toNat) :
    Triple (Copied pid table heap t m src dest len i)
      (pokeTail (kernel env) pid src dest len i)
      (fun _ s => m.Accepts dest len.toNat ∧ Tracked pid table heap t (m.overwrite dest src) s)
      (fun e _ => e = .exit EXIT_FAILURE ∧ ¬m.Accepts dest len.toNat) := by
  intro s hs
  have hindex := hs.index hlast
  have hsmall : len.toNat ≤ 2 ^ 63 - 1 := hfits.small
  have hpartial : len.toNat % 8 ≠ 0 := by omega
  have haddr : dest + BitVec.ofNat 64 (8 * (len.toNat / 8)) = dest + i := by
    rw [← hindex, ofNat_toNat_word]
  have hwords : ∀ k < len.toNat / 8,
      Memory.wordAll m.writable (dest + BitVec.ofNat 64 (8 * k)) = true :=
    fun k hk => hs.written k (by omega)
  refine Triple.bind (triple_peek henv hstop (dest + i) _) (fun answer => ?_) s hs.tracked
  cases answer with
  | error e =>
    -- the last word cannot be read, so the memory does not accept the copy
    have hrefused : ∀ s', Peeked pid table heap t (m.overwrite dest (src.take i.toNat)) (dest + i)
        (.error e) s' → e = Errno.EIO ∧ ¬m.Accepts dest len.toNat := by
      rintro s' ⟨he, hpeek, -⟩
      refine ⟨he, fun haccepts => ?_⟩
      obtain ⟨hreadable, -⟩ := haccepts.2 hpartial
      rw [haddr] at hreadable
      unfold Memory.peek at hpeek
      rw [Memory.readable_overwrite, if_pos hreadable] at hpeek
      cases hpeek
    refine Triple.ite (fun he => Triple.pure fun s' hs' => ?_)
      (fun _ => Triple.throw fun s' hs' => ⟨rfl, (hrefused s' hs').2⟩)
    rw [(hrefused s' hs').1] at he
    cases he
  | ok word =>
    rintro s' ⟨hpeek, hs'⟩
    obtain ⟨hreadable, rfl⟩ := Memory.peek_eq_some.mp hpeek
    refine Triple.bind (triple_tailWord (le_of_eq hfits.length.symm) _ _) (fun word => ?_) s' hs'
    rintro s' ⟨rfl, hs'⟩
    -- the last word can be read, and `replace_buf` fails only where it cannot be written
    have hrefused : ∀ w, (m.overwrite dest (src.take i.toNat)).poke (dest + i) w = none →
        ¬m.Accepts dest len.toNat := by
      rintro w hpoke ⟨-, htail⟩
      have hwritable := (htail hpartial).2
      rw [haddr] at hwritable
      unfold Memory.poke at hpoke
      rw [Memory.writable_overwrite, if_pos hwritable] at hpoke
      cases hpoke
    refine Triple.bind (Triple.conseq (triple_poke henv hstop (dest + i) _)
      (fun s hs => hs) (fun _ _ hs => hs) (fun e _ he => ⟨he.1, hrefused _ he.2⟩))
      (fun more => ?_) s' hs'
    refine Triple.pure ?_
    rintro s'' ⟨-, m', hpoke, hs''⟩
    obtain ⟨hwritable, rfl⟩ := Memory.poke_eq_some.mp hpoke
    have hcopy := @Memory.overwrite_take_tail m dest src i.toNat
      (by rw [hfits.length]; omega) (by rw [hfits.length]; exact hlast)
      (by rw [hfits.length]; omega)
    rw [ofNat_toNat_word, hfits.length] at hcopy
    rw [hcopy, poked_of_started hinitial] at hs''
    refine ⟨⟨hwords, fun _ => ?_⟩, hs''⟩
    rw [haddr]
    exact ⟨hreadable, hwritable⟩

/-- `replace_buf` overwrites the memory when it accepts the copy, and ends the tracer otherwise. -/
theorem triple_replaceBuf (henv : Spared env pid t.mm) (hstop : t.isStopped = true)
    (hinitial : t.stop? ≠ some .initial) {src : List Byte} {len : Word} (hfits : Fits src len)
    (dest : Word) :
    Triple (Tracked pid table heap t m) (replaceBuf (kernel env) pid src dest len)
      (fun _ s => m.Accepts dest len.toNat ∧ Tracked pid table heap t (m.overwrite dest src) s)
      (fun e _ => e = .exit EXIT_FAILURE ∧ ¬m.Accepts dest len.toNat) := by
  have hloop : Triple (Copied pid table heap t m src dest len 0)
      (loop .outOfFuel (pokeWord (kernel env) pid src dest len) (len.toNat / 8 + 1) 0)
      (fun i' s => ∃ i, i' = some i ∧ len.toNat < i.toNat + 8 ∧
        Copied pid table heap t m src dest len i s)
      (fun e _ => e = .exit EXIT_FAILURE ∧ ¬m.Accepts dest len.toNat) := by
    refine Triple.loop_variant (fun i => (len.toNat - i.toNat) / 8) (fun i => ?_) _ 0
      (Nat.lt_succ_of_le (Nat.div_le_div_right (Nat.sub_le _ _)))
    refine (triple_pokeWord henv hstop hinitial hfits dest i).conseq (fun s hs => hs) ?_
      (fun _ _ he => he)
    rintro (i' | i') s hs
    · exact hs
    · exact ⟨i, hs⟩
  -- before the loop nothing is copied
  have hstart : ∀ s, Tracked pid table heap t m s → Copied pid table heap t m src dest len 0 s := by
    refine fun s hs => ⟨Nat.zero_le _, Nat.dvd_zero 8, fun k hk => ?_, ?_⟩
    · cases hk
    · rw [show (0 : Word).toNat = 0 from rfl, List.take_zero, Memory.overwrite_nil]
      exact hs
  refine Triple.bind (hloop.conseq hstart (fun _ _ hs => hs) (fun _ _ he => he)) fun i' => ?_
  rintro s ⟨i, rfl, hlast, hs⟩
  refine Triple.ite (fun hlt => ?_) (fun hge => Triple.pure ?_) s hs
  · exact triple_pokeTail henv hstop hinitial hfits dest i hlast (BitVec.lt_def.mp hlt)
  · intro s hs
    -- the length is a multiple of eight: there is no last word to patch
    have hend : i.toNat = len.toNat := by
      have hge' : ¬i.toNat < len.toNat := fun h => hge (BitVec.lt_def.mpr h)
      have := hs.le
      omega
    have hindex := hs.index hlast
    refine ⟨⟨fun k hk => hs.written k (by omega), fun hpartial => absurd ?_ hpartial⟩, ?_⟩
    · omega
    · have := hs.tracked
      rwa [hend, ← hfits.length, List.take_length] at this

end Reproduce.Linux
