import Reproduce.Bytes.Words
import Reproduce.Linux.Equiv.Arguments

/-!
# Hiding the vDSO from a new program

`execve` leaves the arguments, the environment and the auxiliary vector above the stack pointer
(`InitialStack`).  On every such stack `remove_vdso` ends and overwrites the type of the first
`AT_SYSINFO_EHDR` entry, and nothing else (`removeVdso_hides`).

Both loops of the source are followed by induction over the lists they run through: `triple_skip`
over one list of pointers with its terminator, `triple_search` over the entries of the vector.
-/

namespace Reproduce

open Bytes

/-- The words of an auxiliary vector, without the entry that ends it. -/
def auxWords : List (Word × Word) → List Word
  | [] => []
  | e :: es => e.1 :: e.2 :: auxWords es

/-- The stack that `execve` leaves above `argc`. -/
structure InitialStack where
  argv : List Word
  envp : List Word
  /-- The types and values of the auxiliary vector. -/
  auxv : List (Word × Word)
  /-- The value of the entry of type `AT_NULL` that ends the vector. -/
  last : Word
  argv_ok : ∀ w ∈ argv, w ≠ 0 ∧ w ≠ -1
  envp_ok : ∀ w ∈ envp, w ≠ 0 ∧ w ≠ -1
  auxv_ok : ∀ e ∈ auxv, e.1 ≠ AT_NULL ∧ e.1 ≠ -1

namespace InitialStack

/-- The words in front of the auxiliary vector. -/
def pointers (st : InitialStack) : List Word := (st.argv ++ [0]) ++ (st.envp ++ [0])

def words (st : InitialStack) : List Word := st.pointers ++ (auxWords st.auxv ++ [AT_NULL, st.last])

/-- The address of the type of an entry. -/
def typeAddr (st : InitialStack) (rsp : Word) (k : Nat) : Word :=
  rsp + 8 + BitVec.ofNat 64 (8 * (st.pointers.length + 2 * k))

/-- The stack lies above the word at the stack pointer, accessible and without wrapping around. -/
structure LaidOut (st : InitialStack) (m : Memory) (rsp : Word) : Prop where
  accessible : ∀ k < 8 * st.words.length, m.readable (rsp + 8 + BitVec.ofNat 64 k) = true ∧
    m.writable (rsp + 8 + BitVec.ofNat 64 k) = true
  words : ∀ i, (h : i < st.words.length) →
    m.wordAt (rsp + 8 + BitVec.ofNat 64 (8 * i)) = st.words[i]
  fits : rsp.toNat + 8 * (st.words.length + 1) ≤ 2 ^ 64

/-- The type of the first entry of type `AT_SYSINFO_EHDR` is overwritten, if there is one. -/
structure Hides (st : InitialStack) (rsp : Word) (m m' : Memory) : Prop where
  first : ∀ before value after, st.auxv = before ++ (AT_SYSINFO_EHDR, value) :: after →
    (∀ e ∈ before, e.1 ≠ AT_SYSINFO_EHDR) →
    m' = m.overwrite (st.typeAddr rsp before.length) (wordBytes AT_IGNORE)
  none : (∀ e ∈ st.auxv, e.1 ≠ AT_SYSINFO_EHDR) → m' = m

end InitialStack

theorem length_auxWords (auxv : List (Word × Word)) : (auxWords auxv).length = 2 * auxv.length := by
  induction auxv with
  | nil => rfl
  | cons e auxv ih =>
    rw [auxWords, List.length_cons, List.length_cons, List.length_cons, ih]
    omega

theorem auxWords_append (xs ys : List (Word × Word)) :
    auxWords (xs ++ ys) = auxWords xs ++ auxWords ys := by
  induction xs with
  | nil => rfl
  | cons e xs ih => simp [auxWords, ih]

/-- The address of the entry behind `n + 1` entries. -/
theorem add_sixteen_add (pos : Word) (n : Nat) :
    pos + 16 + BitVec.ofNat 64 (8 * (2 * n)) = pos + BitVec.ofNat 64 (8 * (2 * (n + 1))) := by
  have hsixteen : (16 : Word) = BitVec.ofNat 64 16 := rfl
  rw [hsixteen, Memory.add_ofNat_add, Nat.mul_succ, Nat.mul_add, Nat.add_comm]

/-- The words behind the first entry. -/
theorem wordsAt_auxWords_cons {m : Memory} {pos : Word} {e : Word × Word}
    {auxv : List (Word × Word)} {ws : List Word}
    (h : m.WordsAt pos (auxWords (e :: auxv) ++ ws)) :
    m.peek pos = some e.1 ∧ m.WordsAt (pos + 16) (auxWords auxv ++ ws) := by
  obtain ⟨hfirst, -, hrest⟩ := h
  rw [BitVec.add_assoc] at hrest
  exact ⟨hfirst, hrest⟩

theorem peek_of_auxWords {m : Memory} {pos : Word} {auxv : List (Word × Word)} {ws : List Word}
    (h : m.WordsAt pos (auxWords auxv ++ ws)) {k : Nat} (hk : k < auxv.length) :
    m.peek (pos + BitVec.ofNat 64 (8 * (2 * k))) = some auxv[k].1 := by
  induction auxv generalizing pos k with
  | nil => exact absurd hk (Nat.not_lt_zero k)
  | cons e auxv ih =>
    obtain ⟨hfirst, hrest⟩ := wordsAt_auxWords_cons h
    cases k with
    | zero => simpa using hfirst
    | succ k =>
      rw [← add_sixteen_add]
      exact ih hrest (by simpa using hk)

namespace InitialStack

variable {st : InitialStack} {m : Memory} {rsp : Word}

theorem length_words (st : InitialStack) :
    st.words.length = st.pointers.length + 2 * st.auxv.length + 2 := by
  unfold words
  rw [List.length_append, List.length_append, length_auxWords, List.length_cons,
    List.length_singleton, Nat.add_assoc]

/-- The words of a stack that is laid out can be read. -/
theorem LaidOut.wordsAt (h : st.LaidOut m rsp) : m.WordsAt (rsp + 8) st.words := by
  rw [Memory.wordsAt_iff]
  intro i hi
  refine Memory.peek_eq_some.mpr ⟨Memory.wordAll_offset.mpr fun k _ hk => ?_, h.words i hi⟩
  exact (h.accessible k (by omega)).1

/-- The types of its entries can be overwritten. -/
theorem LaidOut.writable (h : st.LaidOut m rsp) {k : Nat} (hk : k < st.auxv.length) :
    Memory.wordAll m.writable (st.typeAddr rsp k) = true := by
  have hlen := st.length_words
  refine Memory.wordAll_offset.mpr fun j _ hj => ?_
  exact (h.accessible j (by omega)).2

/-- The types of its entries, in memory. -/
theorem LaidOut.type (h : st.LaidOut m rsp) {k : Nat} (hk : k < st.auxv.length) :
    m.wordAt (st.typeAddr rsp k) = st.auxv[k].1 := by
  have hauxv := (Memory.wordsAt_append.mp h.wordsAt).2
  have hpeek := peek_of_auxWords hauxv hk
  rw [Memory.add_ofNat_add, ← Nat.mul_add] at hpeek
  exact (Memory.peek_eq_some.mp hpeek).2

end InitialStack

/-! ### The effect, entry by entry -/

/-- What the search makes of a memory with these entries from `pos` on. -/
def hideVdso (m : Memory) : Word → List (Word × Word) → Memory
  | _, [] => m
  | pos, e :: es =>
    if e.1 = AT_SYSINFO_EHDR then m.overwrite pos (wordBytes AT_IGNORE)
    else hideVdso m (pos + 16) es

theorem hideVdso_first (m : Memory) {pos value : Word} {before after : List (Word × Word)}
    (hbefore : ∀ e ∈ before, e.1 ≠ AT_SYSINFO_EHDR) :
    hideVdso m pos (before ++ (AT_SYSINFO_EHDR, value) :: after) =
      m.overwrite (pos + BitVec.ofNat 64 (8 * (2 * before.length))) (wordBytes AT_IGNORE) := by
  induction before generalizing pos with
  | nil =>
    rw [List.nil_append, hideVdso, if_pos rfl]
    simp
  | cons e before ih =>
    have hhead : e.1 ≠ AT_SYSINFO_EHDR := hbefore e (List.mem_cons_self ..)
    rw [List.cons_append, hideVdso, if_neg hhead,
      ih fun e' he' => hbefore e' (List.mem_cons_of_mem _ he'), add_sixteen_add, List.length_cons]

theorem hideVdso_none (m : Memory) {pos : Word} {auxv : List (Word × Word)}
    (hnone : ∀ e ∈ auxv, e.1 ≠ AT_SYSINFO_EHDR) : hideVdso m pos auxv = m := by
  induction auxv generalizing pos with
  | nil => rfl
  | cons e auxv ih =>
    have hhead : e.1 ≠ AT_SYSINFO_EHDR := hnone e (List.mem_cons_self ..)
    rw [hideVdso, if_neg hhead, ih fun e' he' => hnone e' (List.mem_cons_of_mem _ he')]

end Reproduce

namespace Reproduce.Linux

open Bytes Effect

variable {env : Env} {pid : PidT} {table : List ChildProcess} {heap : Nat} {t : Task} {m : Memory}

/-! ### The two loops -/

/-- A word that is there and is not all ones. -/
theorem triple_peekWord (henv : Spared env pid t.mm) (hstop : t.isStopped = true) {addr word : Word}
    (hpeek : m.peek addr = some word) (hne : word ≠ -1) :
    Triple (Tracked pid table heap t m) (peekReturn (kernel env) pid (.data addr))
      (fun val s => val = some word ∧ Tracked pid table heap t m s) (fun _ _ => False) := by
  refine (triple_peekReturn henv hstop addr).conseq (fun s hs => hs) ?_ ?_
  · rintro val s ⟨word', rfl, hpeek', -, hs⟩
    cases hpeek.symm.trans hpeek'
    exact ⟨rfl, hs⟩
  · intro e s hno
    exact hno ⟨word, hpeek, hne⟩

/-- The loop that counts zero words runs through a list of pointers and its terminator. -/
theorem triple_skip (henv : Spared env pid t.mm) (hstop : t.isStopped = true) {ws : List Word}
    (hok : ∀ w ∈ ws, w ≠ 0 ∧ w ≠ -1) {pos : Word} (hwords : m.WordsAt (pos + 8) (ws ++ [0]))
    {zeroCount n k : Nat} (hzero : zeroCount < 2) (hn : ws.length + 1 + k ≤ n)
    {Q : Option Word → Tracer World → Prop}
    (hrest : ∀ n', k ≤ n' → Triple (Tracked pid table heap t m)
      (loop .outOfFuel (skipWord (kernel env) pid) n'
        (pos + BitVec.ofNat 64 (8 * (ws.length + 1)), zeroCount + 1)) Q (fun _ _ => False)) :
    Triple (Tracked pid table heap t m)
      (loop .outOfFuel (skipWord (kernel env) pid) n (pos, zeroCount)) Q (fun _ _ => False) := by
  -- over the pointers that are left; the terminator is counted and ends the list
  induction ws generalizing pos n with
  | nil =>
    obtain ⟨n, rfl⟩ : ∃ n', n = n' + 1 := ⟨n - 1, by omega⟩
    have hstep : Triple (Tracked pid table heap t m) (skipWord (kernel env) pid (pos, zeroCount))
        (fun r s => r = .inl (pos + 8, zeroCount + 1) ∧ Tracked pid table heap t m s)
        (fun _ _ => False) := by
      rw [skipWord, if_pos hzero]
      refine Triple.bind (triple_peekWord henv hstop hwords.1 (by decide)) fun val => ?_
      rintro s ⟨rfl, hs⟩
      exact ⟨rfl, hs⟩
    refine Triple.bind hstep fun r => ?_
    rintro s ⟨rfl, hs⟩
    rw [List.length_nil] at hn
    exact hrest n (by omega) s hs
  | cons w ws ih =>
    rw [List.length_cons] at hn
    obtain ⟨n, rfl⟩ : ∃ n', n = n' + 1 := ⟨n - 1, by omega⟩
    obtain ⟨hnull, hones⟩ : w ≠ AT_NULL ∧ w ≠ -1 := hok w (List.mem_cons_self ..)
    have hstep : Triple (Tracked pid table heap t m) (skipWord (kernel env) pid (pos, zeroCount))
        (fun r s => r = .inl (pos + 8, zeroCount) ∧ Tracked pid table heap t m s)
        (fun _ _ => False) := by
      rw [skipWord, if_pos hzero]
      refine Triple.bind (triple_peekWord henv hstop hwords.1 hones) fun val => ?_
      rintro s ⟨rfl, hs⟩
      refine ⟨?_, hs⟩
      show Sum.inl (pos + 8, if w = AT_NULL then _ else zeroCount) = _
      rw [if_neg hnull]
    refine Triple.bind hstep fun r => ?_
    rintro s ⟨rfl, hs⟩
    refine ih (fun w' hw' => hok w' (List.mem_cons_of_mem _ hw')) hwords.2 (by omega) ?_ s hs
    intro n' hk
    rw [Memory.add_eight_add]
    exact hrest n' hk

/-- The search runs through the entries up to the first one that it looks for. -/
theorem triple_search (henv : Spared env pid t.mm) (hstop : t.isStopped = true)
    {auxv : List (Word × Word)} (hok : ∀ e ∈ auxv, e.1 ≠ AT_NULL ∧ e.1 ≠ -1) {pos val last : Word}
    (hval : m.peek pos = some val) (hwords : m.WordsAt pos (auxWords auxv ++ [AT_NULL, last]))
    (hwritable : ∀ k < auxv.length,
      Memory.wordAll m.writable (pos + BitVec.ofNat 64 (8 * (2 * k))) = true)
    {n : Nat} (hn : auxv.length < n) :
    Triple (Tracked pid table heap t m)
      (loop .outOfFuel (searchWord (kernel env) pid) n (pos, val))
      (fun _ s => ∃ t', (t' = t ∨ t' = t.poked) ∧
        Tracked pid table heap t' (hideVdso m pos auxv) s) (fun _ _ => False) := by
  -- over the entries that are left, with the type of the first one in `val`
  induction auxv generalizing pos val n with
  | nil =>
    obtain ⟨n, rfl⟩ : ∃ n', n = n' + 1 := ⟨n - 1, by omega⟩
    have hend : val = AT_NULL := Option.some.inj (hval.symm.trans hwords.1)
    have hstep : Triple (Tracked pid table heap t m) (searchWord (kernel env) pid (pos, val))
        (fun r s => r = .inr () ∧ Tracked pid table heap t m s) (fun _ _ => False) := by
      rw [searchWord, if_pos hend]
      exact Triple.pure fun s hs => ⟨rfl, hs⟩
    refine Triple.bind hstep fun r => ?_
    rintro s ⟨rfl, hs⟩
    exact ⟨t, .inl rfl, hs⟩
  | cons e auxv ih =>
    rw [List.length_cons] at hn
    obtain ⟨n, rfl⟩ : ∃ n', n = n' + 1 := ⟨n - 1, by omega⟩
    have htype : val = e.1 := Option.some.inj (hval.symm.trans hwords.1)
    have hnull : val ≠ AT_NULL := htype ▸ (hok e (List.mem_cons_self ..)).1
    by_cases hfound : e.1 = AT_SYSINFO_EHDR
    · -- the entry of the vDSO: its type is overwritten, and the search is over
      have hpoke : m.poke pos AT_IGNORE = some (m.overwrite pos (wordBytes AT_IGNORE)) := by
        refine Memory.poke_eq_some.mpr ⟨?_, rfl⟩
        have hfirst := hwritable 0 (Nat.succ_pos _)
        rwa [Nat.mul_zero, BitVec.add_zero] at hfirst
      have hstep : Triple (Tracked pid table heap t m) (searchWord (kernel env) pid (pos, val))
          (fun r s => r = .inr () ∧
            Tracked pid table heap t.poked (m.overwrite pos (wordBytes AT_IGNORE)) s)
          (fun _ _ => False) := by
        rw [searchWord, if_neg hnull, if_pos (htype.trans hfound)]
        refine Triple.bind ((triple_poke henv hstop pos AT_IGNORE).conseq (fun s hs => hs)
          (fun _ _ hs => hs) fun e s he => ?_) fun more => Triple.pure ?_
        · rw [hpoke] at he
          cases he.2
        · rintro s ⟨-, m', hm', hs⟩
          cases hpoke.symm.trans hm'
          exact ⟨rfl, hs⟩
      refine Triple.bind hstep fun r => ?_
      rintro s ⟨rfl, hs⟩
      refine ⟨t.poked, .inr rfl, ?_⟩
      rw [hideVdso, if_pos hfound]
      exact hs
    · -- the type of the next entry, or the one that ends the vector
      obtain ⟨next, hnext, hones⟩ : ∃ next, m.peek (pos + 16) = some next ∧ next ≠ -1 := by
        have hrest := (wordsAt_auxWords_cons hwords).2
        cases auxv with
        | nil => exact ⟨_, hrest.1, by decide⟩
        | cons e' auxv =>
          exact ⟨_, hrest.1, (hok e' (List.mem_cons_of_mem _ (List.mem_cons_self ..))).2⟩
      have hstep : Triple (Tracked pid table heap t m) (searchWord (kernel env) pid (pos, val))
          (fun r s => r = .inl (pos + 16, next) ∧ Tracked pid table heap t m s)
          (fun _ _ => False) := by
        rw [searchWord, if_neg hnull, if_neg (htype ▸ hfound)]
        refine Triple.bind (triple_peekWord henv hstop hnext hones) fun val' => ?_
        rintro s ⟨rfl, hs⟩
        exact ⟨rfl, hs⟩
      refine Triple.bind hstep fun r => ?_
      rintro s ⟨rfl, hs⟩
      have hrest := (wordsAt_auxWords_cons hwords).2
      rw [hideVdso, if_neg hfound]
      refine ih (fun e' he' => hok e' (List.mem_cons_of_mem _ he')) hnext hrest ?_ (by omega) s hs
      intro k hk
      rw [add_sixteen_add]
      exact hwritable (k + 1) (by simpa using hk)

/-! ### `remove_vdso` -/

theorem triple_peekRsp (henv : Spared env pid t.mm) (hstop : t.isStopped = true)
    (hrsp : t.regs.rsp ≠ -1) :
    Triple (Tracked pid table heap t m) (peekReturn (kernel env) pid (.user (8 * RSP)))
      (fun val s => val = some t.regs.rsp ∧ Tracked pid table heap t m s) (fun _ _ => False) := by
  refine Triple.bind (triple_ptrace_tracked henv hstop rfl _) fun answer => ?_
  have hanswer : ∀ w : World, w.perform t (.peek pid (.user (8 * RSP))) = (.ok t.regs.rsp, w) := by
    intro w
    simp [World.perform]
  rintro s ⟨w, hw, hheap, rfl, hos, htable⟩
  rw [hanswer] at hos
  rw [hanswer]
  refine Triple.ite (fun hones => absurd hones hrsp) (fun _ => Triple.pure fun s hs => ⟨rfl, hs⟩) s
    ⟨?_, htable, ?_⟩
  · rw [hos]
    exact hw
  · rw [hos]
    exact hheap

/-- On a stack that is laid out, `remove_vdso` returns, and the memory is what the search
makes of it. -/
theorem triple_removeVdso (henv : Spared env pid t.mm) (hstop : t.isStopped = true)
    {st : InitialStack} (hlaid : st.LaidOut m t.regs.rsp) {scan : Nat}
    (hscan : st.words.length < scan) :
    Triple (Tracked pid table heap t m) (removeVdso (kernel env) scan pid)
      (fun _ s => ∃ t', (t' = t ∨ t' = t.poked) ∧
        Tracked pid table heap t' (hideVdso m (st.typeAddr t.regs.rsp 0) st.auxv) s)
      (fun _ _ => False) := by
  have hwords := hlaid.wordsAt
  have hlength := st.length_words
  have hpointers : st.pointers.length = st.argv.length + 1 + (st.envp.length + 1) := by
    unfold InitialStack.pointers
    rw [List.length_append, List.length_append, List.length_append]
    rfl
  obtain ⟨hpointersAt, hauxAt⟩ := Memory.wordsAt_append.mp hwords
  obtain ⟨hargvAt, henvpAt⟩ := Memory.wordsAt_append.mp hpointersAt
  -- a stack pointer of all ones would be taken for an error, but no stack fits above it
  have hrsp : t.regs.rsp ≠ -1 := by
    intro h
    have hfits := hlaid.fits
    rw [h] at hfits
    have hones : (-1 : Word).toNat = 2 ^ 64 - 1 := rfl
    omega
  intro s hs
  rw [removeVdso, bind_apply_ok (note_apply _ s)]
  have hs' : Tracked pid table heap t m (s.noted (.removeVdso pid)) := ⟨hs.held, hs.table, hs.heap⟩
  refine Triple.bind (triple_peekRsp henv hstop hrsp) (fun rsp => ?_) _ hs'
  rintro s ⟨rfl, hs⟩
  -- the position of the second zero word, seen from both sides
  have hfirst : st.typeAddr t.regs.rsp 0 =
      t.regs.rsp + 8 + BitVec.ofNat 64 (8 * st.pointers.length) := rfl
  have hend : st.typeAddr t.regs.rsp 0 =
      t.regs.rsp + BitVec.ofNat 64 (8 * (st.argv.length + 1)) +
        BitVec.ofNat 64 (8 * (st.envp.length + 1)) + 8 := by
    have height : (8 : Word) = BitVec.ofNat 64 8 := rfl
    rw [hfirst, hpointers, height]
    simp only [Memory.add_ofNat_add]
    congr 2
    omega
  -- the two zero words are the terminators of the arguments and of the environment
  have hskip : Triple (Tracked pid table heap t m)
      (loop .outOfFuel (skipWord (kernel env) pid) scan (t.regs.rsp, 0))
      (fun pos s => ∃ p, pos = some p ∧ st.typeAddr t.regs.rsp 0 = p + 8 ∧
        Tracked pid table heap t m s) (fun _ _ => False) := by
    refine triple_skip henv hstop st.argv_ok hargvAt (by decide)
      (k := st.envp.length + 2) (by omega)
      fun n hn => ?_
    refine triple_skip henv hstop st.envp_ok ?_ (by decide) (k := 1) (by omega) fun n hn => ?_
    · rw [List.length_append, List.length_singleton] at henvpAt
      have hsame : t.regs.rsp + BitVec.ofNat 64 (8 * (st.argv.length + 1)) + 8 =
          t.regs.rsp + 8 + BitVec.ofNat 64 (8 * (st.argv.length + 1)) := by
        rw [BitVec.add_assoc, BitVec.add_comm _ 8, ← BitVec.add_assoc]
      rw [hsame]
      exact henvpAt
    · obtain ⟨n, rfl⟩ : ∃ n', n = n' + 1 := ⟨n - 1, by omega⟩
      intro s hs
      exact ⟨_, rfl, hend, hs⟩
  refine Triple.bind hskip (fun pos => ?_) s hs
  rintro s ⟨p, rfl, hp, hs⟩
  -- the type of the first entry, or the one that ends the vector
  obtain ⟨val, hval, hones⟩ : ∃ val, m.peek (p + 8) = some val ∧ val ≠ -1 := by
    rw [← hp, hfirst]
    have hok := st.auxv_ok
    cases hauxv : st.auxv with
    | nil =>
      rw [hauxv] at hauxAt
      exact ⟨_, hauxAt.1, by decide⟩
    | cons e auxv =>
      rw [hauxv] at hauxAt hok
      exact ⟨_, hauxAt.1, (hok e (List.mem_cons_self ..)).2⟩
  refine Triple.bind (triple_peekWord henv hstop hval hones) (fun val' => ?_) s hs
  rintro s ⟨rfl, hs⟩
  have hentries : m.WordsAt (p + 8) (auxWords st.auxv ++ [AT_NULL, st.last]) := by
    rw [← hp]
    exact hauxAt
  rw [hp]
  refine triple_search henv hstop st.auxv_ok hval hentries (fun k hk => ?_) (by omega) s hs
  have hwritable := hlaid.writable hk
  rw [← hp, hfirst, Memory.add_ofNat_add, ← Nat.mul_add]
  exact hwritable

/-- The search hides what it should. -/
theorem hides_hideVdso (st : InitialStack) (m : Memory) (rsp : Word) :
    st.Hides rsp m (hideVdso m (st.typeAddr rsp 0) st.auxv) where
  first before value after hauxv hbefore := by
    rw [hauxv, hideVdso_first m hbefore, InitialStack.typeAddr, InitialStack.typeAddr,
      Memory.add_ofNat_add, ← Nat.mul_add]
    rfl
  none hnone := hideVdso_none m hnone

/-- The stack with one type replaced, in the memory in which it was overwritten. -/
theorem laidOut_overwrite {st st' : InitialStack} {rsp type type' value : Word}
    {before after : List (Word × Word)} (hlaid : st.LaidOut m rsp)
    (hauxv : st.auxv = before ++ (type, value) :: after)
    (hauxv' : st'.auxv = before ++ (type', value) :: after) (hpointers : st'.pointers = st.pointers)
    (hlast : st'.last = st.last) :
    st'.LaidOut (m.overwrite (st.typeAddr rsp before.length) (wordBytes type')) rsp := by
  have hwords : st.words = (st.pointers ++ auxWords before) ++
      type :: (value :: auxWords after ++ [AT_NULL, st.last]) := by
    simp [InitialStack.words, hauxv, auxWords_append, auxWords]
  have hwords' : st'.words = (st.pointers ++ auxWords before) ++
      type' :: (value :: auxWords after ++ [AT_NULL, st.last]) := by
    simp [InitialStack.words, hauxv', hpointers, hlast, auxWords_append, auxWords]
  have hlength : st'.words.length = st.words.length := by
    rw [hwords, hwords']
    simp
  have hfits := hlaid.fits
  have hwordsAt := hlaid.wordsAt
  rw [hwords] at hwordsAt
  have hnew := Memory.wordsAt_overwrite type' hwordsAt (by rw [← hwords]; omega)
  have haddr : rsp + 8 + BitVec.ofNat 64 (8 * (st.pointers ++ auxWords before).length) =
      st.typeAddr rsp before.length := by
    rw [List.length_append, length_auxWords]
    rfl
  rw [haddr, ← hwords', Memory.wordsAt_iff] at hnew
  constructor
  · intro k hk
    exact hlaid.accessible k (by omega)
  · intro i hi
    exact (Memory.peek_eq_some.mp (hnew i hi)).2
  · rw [hlength]
    exact hfits

/-- Either no entry has the type that is searched, or there is a first one. -/
theorem first_or_none (auxv : List (Word × Word)) :
    (∀ e ∈ auxv, e.1 ≠ AT_SYSINFO_EHDR) ∨
      ∃ before value after, auxv = before ++ (AT_SYSINFO_EHDR, value) :: after ∧
        ∀ e ∈ before, e.1 ≠ AT_SYSINFO_EHDR := by
  cases hfind : auxv.find? fun e => e.1 = AT_SYSINFO_EHDR with
  | none =>
    rw [List.find?_eq_none] at hfind
    exact .inl fun e he => by simpa using hfind e he
  | some e =>
    obtain ⟨htype, before, after, hauxv, hbefore⟩ := List.find?_eq_some_iff_append.mp hfind
    obtain ⟨type, value⟩ := e
    obtain rfl : type = AT_SYSINFO_EHDR := by simpa using htype
    exact .inr ⟨before, value, after, hauxv, fun e he => by simpa using hbefore e he⟩

/-- After the search of a vector with at most one such entry, the memory holds a stack
without any. -/
theorem exists_clean {st : InitialStack} {rsp : Word} (hlaid : st.LaidOut m rsp)
    (hcount : st.auxv.countP (fun e => e.1 = AT_SYSINFO_EHDR) ≤ 1) :
    ∃ st' : InitialStack, st'.pointers = st.pointers ∧ st'.auxv.length = st.auxv.length ∧
      (∀ e ∈ st'.auxv, e.1 ≠ AT_SYSINFO_EHDR) ∧
      st'.LaidOut (hideVdso m (st.typeAddr rsp 0) st.auxv) rsp := by
  have hhides := hides_hideVdso st m rsp
  rcases first_or_none st.auxv with hnone | ⟨before, value, after, hauxv, hbefore⟩
  · rw [hhides.none hnone]
    exact ⟨st, rfl, rfl, hnone, hlaid⟩
  · -- the one that was found is the only one
    have hafter : ∀ e ∈ after, e.1 ≠ AT_SYSINFO_EHDR := by
      rw [hauxv, List.countP_append, List.countP_cons_of_pos (by simp)] at hcount
      intro e he htype
      have hpos : 0 < after.countP fun e => e.1 = AT_SYSINFO_EHDR :=
        List.countP_pos_iff.mpr ⟨e, he, by simpa using htype⟩
      omega
    have hok : ∀ e ∈ before ++ (AT_IGNORE, value) :: after, e.1 ≠ AT_NULL ∧ e.1 ≠ -1 := by
      intro e he
      rcases List.mem_append.mp he with he | he
      · exact st.auxv_ok e (hauxv ▸ List.mem_append_left _ he)
      · rcases List.mem_cons.mp he with rfl | he
        · show AT_IGNORE ≠ AT_NULL ∧ AT_IGNORE ≠ -1
          decide
        · exact st.auxv_ok e (hauxv ▸ List.mem_append_right _ (List.mem_cons_of_mem _ he))
    refine ⟨{ st with auxv := before ++ (AT_IGNORE, value) :: after, auxv_ok := hok },
      rfl, ?_, ?_, ?_⟩
    · show (before ++ (AT_IGNORE, value) :: after).length = st.auxv.length
      rw [hauxv, List.length_append, List.length_append, List.length_cons, List.length_cons]
    · intro e he
      rcases List.mem_append.mp he with he | he
      · exact hbefore e he
      · rcases List.mem_cons.mp he with rfl | he
        · show AT_IGNORE ≠ AT_SYSINFO_EHDR
          decide
        · exact hafter e he
    · rw [hhides.first before value after hauxv hbefore]
      exact laidOut_overwrite hlaid hauxv rfl rfl rfl

/-- A poke leaves everything but its own count. -/
theorem poked_same {t' : Task} (h : t' = t ∨ t' = t.poked) :
    t'.mm = t.mm ∧ t'.regs = t.regs ∧ t'.isStopped = t.isStopped := by
  rcases h with rfl | rfl
  · exact ⟨rfl, rfl, rfl⟩
  · unfold Task.poked
    split
    · exact ⟨rfl, rfl, rfl⟩
    · exact ⟨rfl, rfl, rfl⟩

variable {s : Tracer World}

theorem removeVdso_returns (henv : Spared env pid t.mm) (hstop : t.isStopped = true)
    (hheld : Held pid t m s.os) {st : InitialStack} (hlaid : st.LaidOut m t.regs.rsp) {scan : Nat}
    (hscan : st.words.length < scan) :
    ∃ s' t', removeVdso (kernel env) scan pid s = .ok () s' ∧ (t' = t ∨ t' = t.poked) ∧
      Held pid t' (hideVdso m (st.typeAddr t.regs.rsp 0) st.auxv) s'.os := by
  have htracked : Tracked pid s.processTable s.os.heap t m s := ⟨hheld, rfl, rfl⟩
  have hend := triple_removeVdso henv hstop hlaid hscan s htracked
  cases hrun : removeVdso (kernel env) scan pid s with
  | ok _ s' =>
    rw [hrun] at hend
    obtain ⟨t', ht', hdone⟩ := hend
    exact ⟨s', t', rfl, ht', hdone.held⟩
  | error e s' =>
    rw [hrun] at hend
    exact hend.elim

/-- On every initial stack `remove_vdso` returns and hides the first `AT_SYSINFO_EHDR` entry.  When
there is no other one, none is left, and a second application changes nothing. -/
theorem removeVdso_hides (henv : Spared env pid t.mm) (hstop : t.isStopped = true)
    (hheld : Held pid t m s.os) {st : InitialStack} (hlaid : st.LaidOut m t.regs.rsp) {scan : Nat}
    (hscan : st.words.length < scan) :
    ∃ s', removeVdso (kernel env) scan pid s = .ok () s' ∧
      st.Hides t.regs.rsp m (s'.os.mem t.mm) ∧
      (st.auxv.countP (fun e => e.1 = AT_SYSINFO_EHDR) ≤ 1 →
        (∀ k < st.auxv.length,
          (s'.os.mem t.mm).wordAt (st.typeAddr t.regs.rsp k) ≠ AT_SYSINFO_EHDR) ∧
        ∃ s'', removeVdso (kernel env) scan pid s' = .ok () s'' ∧
          s''.os.mem t.mm = s'.os.mem t.mm) := by
  obtain ⟨s', t', hrun, ht', hheld'⟩ := removeVdso_returns henv hstop hheld hlaid hscan
  obtain ⟨hmm, hregs, hstop'⟩ := poked_same ht'
  have hmem := hheld'.mem
  rw [hmm] at hmem
  refine ⟨s', hrun, ?_, fun hcount => ?_⟩
  · rw [hmem]
    exact hides_hideVdso st m t.regs.rsp
  · -- the second application starts from a stack without an entry of the vDSO
    obtain ⟨st', hpointers, hlength, hnone, hlaid'⟩ := exists_clean hlaid hcount
    constructor
    · intro k hk
      have htype := hlaid'.type (k := k) (by omega)
      have haddr : st'.typeAddr t.regs.rsp k = st.typeAddr t.regs.rsp k := by
        rw [InitialStack.typeAddr, InitialStack.typeAddr, hpointers]
      rw [haddr] at htype
      rw [hmem, htype]
      exact hnone _ (List.getElem_mem _)
    · have hscan' : st'.words.length < scan := by
        rw [st'.length_words, hpointers, hlength, ← st.length_words]
        exact hscan
      obtain ⟨s'', t'', hrun', ht'', hheld''⟩ :=
        removeVdso_returns (t := t') (by rw [hmm]; exact henv)
        (hstop'.trans hstop) hheld' (by rw [hregs]; exact hlaid') hscan'
      have hmem' := hheld''.mem
      rw [(poked_same ht'').1, hmm, hideVdso_none _ hnone] at hmem'
      exact ⟨s'', hrun', hmem'.trans hmem.symm⟩

/-- One argument, one variable, and three entries; values look like terminators and like the type
that is searched. -/
def sampleStack : InitialStack where
  argv := [4096]
  envp := [4100]
  auxv := [(6, 0), (AT_SYSINFO_EHDR, 33), (25, -1)]
  last := 33
  argv_ok := by simp
  envp_ok := by simp
  auxv_ok := by simp [AT_NULL, AT_SYSINFO_EHDR]

/-- The sample stack above 8192. -/
def Boot.stacked : Boot :=
  { Boot.sample with
    memory := Boot.sample.memory.overwrite 8200 (sampleStack.words.flatMap wordBytes) }

theorem laidOut_stacked : sampleStack.LaidOut Boot.stacked.memory 8192 := by
  have hwords : ∀ i < 12, ∀ h : i < sampleStack.words.length,
      Boot.stacked.memory.wordAt (8192 + 8 + BitVec.ofNat 64 (8 * i)) = sampleStack.words[i] := by
    decide +kernel
  exact ⟨fun k _ => ⟨rfl, rfl⟩, fun i hi => hwords i hi hi, by decide⟩

/-- The second entry of the sample stack is hidden. -/
theorem removeVdso_stacked :
    ∃ s', removeVdso (kernel (finishing 100)) 13 100
        (Boot.stacked.atEntry { (default : UserRegsStruct) with rsp := 8192 }) = .ok () s' ∧
      s'.os.mem 0 = Boot.stacked.memory.overwrite (sampleStack.typeAddr 8192 1)
        (wordBytes AT_IGNORE) := by
  have hlaid : sampleStack.LaidOut Boot.stacked.memory (Boot.stacked.entryTask
      { (default : UserRegsStruct) with rsp := 8192 }).regs.rsp := laidOut_stacked
  have hscan : sampleStack.words.length < 13 := by decide
  obtain ⟨s', hrun, hhides, -⟩ := removeVdso_hides (attends_finishing 100).spared rfl
    (held_atEntry Boot.stacked _) hlaid hscan
  exact ⟨s', hrun, hhides.first [(6, 0)] 33 [(25, -1)] rfl (by simp [AT_SYSINFO_EHDR])⟩

end Reproduce.Linux
