import Voltemu.Kernel.Sync.KConditionVariable
import Voltemu.Kernel.Thread.InheritanceRuns

/-!
# The mutex protocol

Programs take and release mutexes in user space as long as nobody waits, and leave it to the kernel
otherwise.  `ProtocolOp` are the steps of threads that keep to the protocol, in any interleaving.

* `ProtocolInv` — the word of a mutex names its owner, and has the wait bit set as long as the kernel
  has a waiter for it;
* `ProtocolInv.exec` — every step completes and keeps this;
* `mutex_protocol_sound` — it holds in every reachable state.
-/

namespace Voltemu.Kernel

open LockState Function BitVec

/-! ## Tags -/

namespace ThreadHandles

variable {ι : Type*} (T : ThreadHandles ι)

lemma lookup_handle (t : ι) : T.lookup (T.handle t) = some t := (T.lookup_eq_some _ t).2 rfl

variable {t t' : ι}

lemma handle_injective (h : T.handle t = T.handle t') : t = t' := by
  have heq := T.lookup_handle t
  rw [h, T.lookup_handle t'] at heq
  exact (Option.some.inj heq).symm

/-- The word names the thread as the owner. -/
def Names (word : BitVec 32) (t : ι) : Prop :=
  word = T.handle t ∨ word = T.handle t ||| HandleWaitMask

private lemma or_and_not_self {x m : BitVec 32} (h : x &&& m = 0#32) : (x ||| m) &&& ~~~m = x := by
  ext i hi
  have hbit : (x &&& m)[i] = (0#32)[i] := by rw [h]
  simp only [getElem_and, getElem_or, getElem_not, getElem_zero] at hbit ⊢
  cases hx : x[i] <;> cases hm : m[i] <;> simp_all

private lemma and_not_self {x m : BitVec 32} (h : x &&& m = 0#32) : x &&& ~~~m = x := by
  ext i hi
  have hbit : (x &&& m)[i] = (0#32)[i] := by rw [h]
  simp only [getElem_and, getElem_not, getElem_zero] at hbit ⊢
  cases hx : x[i] <;> cases hm : m[i] <;> simp_all

variable {T}

variable {word : BitVec 32}

lemma Names.tag (h : T.Names word t) : word &&& ~~~HandleWaitMask = T.handle t := by
  rcases h with rfl | rfl
  · exact and_not_self (T.handle_and_mask t)
  · exact or_and_not_self (T.handle_and_mask t)

lemma Names.unique (h : T.Names word t) (h' : T.Names word t') : t = t' :=
  T.handle_injective (h.tag.symm.trans h'.tag)

lemma Names.or_mask (h : T.Names word t) : word ||| HandleWaitMask = T.handle t ||| HandleWaitMask := by
  rcases h with rfl | rfl
  · rfl
  · rw [BitVec.or_assoc, BitVec.or_self]

lemma Names.ne_zero (h : T.Names word t) : word ≠ 0#32 := by
  intro hzero
  have htag := h.tag
  rw [hzero, zero_and] at htag
  exact T.handle_ne_zero t htag.symm

lemma handle_ne_or_mask (t t' : ι) : T.handle t ≠ T.handle t' ||| HandleWaitMask := by
  intro heq
  have hmask := T.handle_and_mask t
  rw [heq, BitVec.and_comm, BitVec.and_or_distrib_left, BitVec.and_self, BitVec.and_comm,
    T.handle_and_mask t', BitVec.zero_or] at hmask
  exact absurd hmask (by decide)

end ThreadHandles

/-! ## Steps -/

/-- The steps of the protocol.  The first three are atomic accesses in user space, the others are
kernel calls and their parts. -/
inductive ProtocolOp (ι : Type*)
  | acquire (thread : ι) (addr : ℕ)
  | setWaitMask (thread : ι) (addr : ℕ)
  | release (thread : ι) (addr : ℕ)
  | signalToAddress (thread : ι) (addr : ℕ)
  | waitForAddress (thread : ι) (handle : BitVec 32) (addr : ℕ)
  | wait (thread : ι) (addr key : ℕ) (timeout : ℤ)
  | signal (thread : ι) (key : ℕ) (count : ℤ)
  | signalNext (call : SignalCall) (target : ι)
  | signalEnd (call : SignalCall)
  | cancelWait (thread : ι)

namespace CondVarState

variable {ι : Type*} [Fintype ι] [DecidableEq ι]

/-- One step.  A compare-and-swap that does not find the expected value changes nothing. -/
def exec (T : ThreadHandles ι) (s : CondVarState ι) : ProtocolOp ι → Option (CondVarState ι)
  | .acquire thread addr => some <|
      if s.word addr = 0#32 then
        (s.writeToUser addr (T.handle thread)).setOwns thread addr true
      else s
  | .setWaitMask _ addr => some <|
      if s.word addr = 0#32 then s else s.writeToUser addr (s.word addr ||| HandleWaitMask)
  | .release thread addr => some <|
      if s.word addr = T.handle thread then (s.writeToUser addr 0#32).setOwns thread addr false
      else s
  | .signalToAddress thread addr => s.signalToAddress thread addr
  | .waitForAddress thread handle addr => s.waitForAddress T thread handle addr
  | .wait thread addr key timeout => s.wait T thread addr key timeout
  | .signal _ key count => some { s with signaling := some ⟨key, count, 0⟩ }
  | .signalNext call target => s.signalNext T call target
  | .signalEnd call => some (s.signalEnd call)
  | .cancelWait thread => s.cancelWait thread

omit [Fintype ι] [DecidableEq ι] in
/-- Who may take which step.  A blocked thread takes none; kernel calls wait for the scheduler lock;
only an owner releases a mutex; the words of condition variables are not mutexes. -/
def Admissible (IsMutex : ℕ → Prop) (s : CondVarState ι) : ProtocolOp ι → Prop
  | .acquire thread addr | .setWaitMask thread addr | .release thread addr =>
      s.waitQueue thread = none ∧ IsMutex addr
  | .signalToAddress thread addr =>
      s.signaling.isNone ∧ s.waitQueue thread = none ∧ IsMutex addr ∧ s.owns thread addr = true
  | .waitForAddress thread _ addr =>
      s.signaling.isNone ∧ s.waitQueue thread = none ∧ IsMutex addr
  | .wait thread addr key _ =>
      s.signaling.isNone ∧ s.waitQueue thread = none ∧ IsMutex addr ∧ s.owns thread addr = true ∧ ¬ IsMutex key
  | .signal thread key _ => s.signaling.isNone ∧ s.waitQueue thread = none ∧ ¬ IsMutex key
  | .signalNext call target =>
      s.signaling = some call ∧ s.condVarKey target = some call.cvKey ∧ (call.count ≤ 0 ∨ call.numWaiters < call.count)
  | .signalEnd call =>
      s.signaling = some call ∧ ((∀ t, s.condVarKey t ≠ some call.cvKey) ∨
        ¬ (call.count ≤ 0 ∨ call.numWaiters < call.count))
  | .cancelWait thread => s.signaling.isNone ∧ s.waitQueue thread ≠ none

def Step (T : ThreadHandles ι) (IsMutex : ℕ → Prop) (s s' : CondVarState ι) : Prop :=
  ∃ op, s.Admissible IsMutex op ∧ s.exec T op = some s'

/-! ## The invariant -/

omit [Fintype ι] [DecidableEq ι] in
/-- The word of a mutex names its owner, and is zero without one. -/
structure Words (T : ThreadHandles ι) (IsMutex : ℕ → Prop) (word : ℕ → BitVec 32)
    (owns : ι → ℕ → Bool) : Prop where
  names : ∀ t a, IsMutex a → owns t a = true → T.Names (word a) t
  owned : ∀ a, IsMutex a → word a ≠ 0#32 → ∃ t, owns t a = true

variable {T : ThreadHandles ι}

omit [Fintype ι] [DecidableEq ι] in
lemma Words.set {IsMutex : ℕ → Prop} {word word' : ℕ → BitVec 32}
    {owns owns' : ι → ℕ → Bool} (h : Words T IsMutex word owns) (a : ℕ)
    (hword : ∀ b, IsMutex b → b ≠ a → word' b = word b)
    (howns : ∀ t b, b ≠ a → owns' t b = owns t b)
    (hnames : ∀ t, owns' t a = true → T.Names (word' a) t)
    (howned : word' a ≠ 0#32 → ∃ t, owns' t a = true) : Words T IsMutex word' owns' := by
  refine ⟨?_, ?_⟩
  · intro t b hb ht
    by_cases heq : b = a
    · subst heq
      exact hnames t ht
    · rw [howns t b heq] at ht
      rw [hword b hb heq]
      exact h.names t b hb ht
  · intro b hb hne
    by_cases heq : b = a
    · subst heq
      exact howned hne
    · rw [hword b hb heq] at hne
      obtain ⟨t, ht⟩ := h.owned b hb hne
      exact ⟨t, by rw [howns t b heq, ht]⟩

/-- The kernel's wait lists agree with the threads that are blocked. -/
structure Waits (T : ThreadHandles ι) (IsMutex : ℕ → Prop) (s : CondVarState ι) : Prop where
  inv : s.locks.Inv
  settled : s.locks.AllSettled
  unique : s.locks.UniqueKeys
  key : ∀ t, s.waitQueue t ≠ none → s.locks.isKernelAddressKey t = false ∧
    IsMutex (s.locks.addressKey t) ∧ s.addressKeyValue t = T.handle t
  blocked : ∀ t, s.locks.lockOwner t ≠ none → s.waitQueue t ≠ none
  condVar : ∀ t, s.condVarKey t ≠ none → s.waitQueue t = some .waitConditionVariable ∧ s.locks.lockOwner t = none
  address : ∀ t, s.waitQueue t = some .waitForAddress → s.locks.lockOwner t ≠ none
  signaling : ∀ call, s.signaling = some call → ¬ IsMutex call.cvKey

structure ProtocolInv (T : ThreadHandles ι) (IsMutex : ℕ → Prop) (s : CondVarState ι) :
    Prop where
  words : Words T IsMutex s.word s.owns
  waits : Waits T IsMutex s
  waiter : ∀ t o, s.locks.lockOwner t = some o → s.word (s.locks.addressKey t) = T.handle o ||| HandleWaitMask

section Steps

variable {IsMutex : ℕ → Prop} {s : CondVarState ι} {t o : ι} {a : ℕ}

lemma ProtocolInv.waiter_key (hs : ProtocolInv T IsMutex s) (h : s.locks.lockOwner t = some o) :
    IsMutex (s.locks.addressKey t) ∧ s.locks.threadKey t = (s.locks.addressKey t, false) := by
  obtain ⟨hkernel, hmutex, -⟩ := hs.waits.key t (hs.waits.blocked t (by simp [h]))
  exact ⟨hmutex, by rw [LockState.threadKey, hkernel]⟩

lemma ProtocolInv.owns_of_waiter (hs : ProtocolInv T IsMutex s)
    (h : s.locks.lockOwner t = some o) : s.owns o (s.locks.addressKey t) = true := by
  have hword := hs.waiter t o h
  have hmutex := (hs.waiter_key h).1
  have hnames : T.Names (s.word (s.locks.addressKey t)) o := Or.inr hword
  obtain ⟨x, hx⟩ := hs.words.owned _ hmutex hnames.ne_zero
  exact (hs.words.names x _ hmutex hx).unique hnames ▸ hx

lemma ProtocolInv.setWord (hs : ProtocolInv T IsMutex s) {w : BitVec 32} {owns' : ι → ℕ → Bool}
    (howns : ∀ t b, b ≠ a → owns' t b = s.owns t b)
    (hnames : ∀ t, owns' t a = true → T.Names w t) (howned : w ≠ 0#32 → ∃ t, owns' t a = true)
    (hwaiter : ∀ t o, s.locks.lockOwner t = some o → s.locks.addressKey t = a → w = T.handle o ||| HandleWaitMask) :
    ProtocolInv T IsMutex { s with word := update s.word a w, owns := owns' } := by
  refine ⟨hs.words.set a (fun b _ hb => update_of_ne hb _ _) howns ?_ ?_,
    ⟨hs.waits.inv, hs.waits.settled, hs.waits.unique, hs.waits.key, hs.waits.blocked,
      hs.waits.condVar, hs.waits.address, hs.waits.signaling⟩, ?_⟩
  · intro t ht
    simpa using hnames t ht
  · intro hne
    exact howned (by simpa using hne)
  · intro t o h
    show update s.word a w (s.locks.addressKey t) = _
    by_cases heq : s.locks.addressKey t = a
    · rw [heq, update_self]
      exact hwaiter t o h heq
    · rw [update_of_ne heq]
      exact hs.waiter t o h

omit [Fintype ι] in
/-- Only what `thread` thinks of `a` changes. -/
lemma setOwns_of_ne (owns : ι → ℕ → Bool) (t : ι) (b : Bool) {x : ι} {c : ℕ} (h : c ≠ a) :
    update owns t (update (owns t) a b) x c = owns x c := by
  by_cases hx : x = t
  · subst hx
    rw [update_self, update_of_ne h]
  · rw [update_of_ne hx]

omit [Fintype ι] in
lemma setOwns_self_iff (owns : ι → ℕ → Bool) (t x : ι) (b : Bool) :
    update owns t (update (owns t) a b) x a = true ↔ (x = t ∧ b = true) ∨ (x ≠ t ∧ owns x a = true) := by
  by_cases hx : x = t
  · subst hx
    simp
  · simp [hx]

section

variable (hs : ProtocolInv T IsMutex s) (hmutex : IsMutex a)
include hs hmutex

lemma ProtocolInv.acquire (hzero : s.word a = 0#32) (t : ι) :
    ProtocolInv T IsMutex ((s.writeToUser a (T.handle t)).setOwns t a true) := by
  have hfree : ∀ x, ¬ s.owns x a = true := fun x hx =>
    (hs.words.names x a hmutex hx).ne_zero hzero
  refine hs.setWord (fun x b hb => setOwns_of_ne _ _ _ hb) ?_ ?_ ?_
  · intro x hx
    rcases (setOwns_self_iff _ _ _ _).1 hx with ⟨rfl, -⟩ | ⟨-, hx⟩
    · exact Or.inl rfl
    · exact absurd hx (hfree x)
  · intro _
    exact ⟨t, (setOwns_self_iff _ _ _ _).2 (Or.inl ⟨rfl, rfl⟩)⟩
  · intro x o h heq
    exact absurd (heq ▸ hs.owns_of_waiter h) (hfree o)

/-- The compare-and-swap that releases a mutex without the wait bit. -/
lemma ProtocolInv.release {t : ι} (hword : s.word a = T.handle t) :
    ProtocolInv T IsMutex ((s.writeToUser a 0#32).setOwns t a false) := by
  refine hs.setWord (fun x b hb => setOwns_of_ne _ _ _ hb) ?_ (fun hne => absurd rfl hne) ?_
  · intro x hx
    rcases (setOwns_self_iff _ _ _ _).1 hx with ⟨-, hfalse⟩ | ⟨hne, hx⟩
    · simp at hfalse
    · exact absurd ((hs.words.names x a hmutex hx).unique (Or.inl hword)) hne
  · intro x o h heq
    have hmask := hs.waiter x o h
    rw [heq, hword] at hmask
    exact absurd hmask (ThreadHandles.handle_ne_or_mask t o)

lemma ProtocolInv.setWaitMask (hne : s.word a ≠ 0#32) :
    ProtocolInv T IsMutex (s.writeToUser a (s.word a ||| HandleWaitMask)) := by
  refine hs.setWord (fun _ _ _ => rfl) ?_ (fun _ => hs.words.owned a hmutex hne) ?_
  · intro x hx
    exact Or.inr (hs.words.names x a hmutex hx).or_mask
  · intro x o h heq
    rw [← heq, hs.waiter x o h, BitVec.or_assoc, BitVec.or_self]

end

/-! ## The hand-over of a mutex -/

lemma ProtocolInv.lockOwner_of_running (hs : ProtocolInv T IsMutex s)
    (h : s.waitQueue t = none) : s.locks.lockOwner t = none := by
  by_contra hne
  exact hs.waits.blocked t hne h

omit [Fintype ι] [DecidableEq ι] in
lemma addressKey_eq {locks locks' : LockState ι} (h : locks'.threadKey = locks.threadKey) :
    locks'.addressKey = locks.addressKey ∧ locks'.isKernelAddressKey = locks.isKernelAddressKey :=
  ⟨funext fun x => congrArg Prod.fst (congrFun h x),
    funext fun x => congrArg Prod.snd (congrFun h x)⟩

variable {locks : LockState ι}

private lemma signalToAddress_none {b : Bool}
    (h : s.locks.removeWaiterByKey (Fintype.card ι + 1) t a false = some ((none, b), locks)) :
    s.signalToAddress t a = some (({ s with locks := locks }.writeToUser a 0#32).setOwns t a false) := by
  rw [signalToAddress, h]
  rfl

private lemma signalToAddress_some {n : ι} {b : Bool}
    (h : s.locks.removeWaiterByKey (Fintype.card ι + 1) t a false = some ((some n, b), locks)) :
    s.signalToAddress t a =
      some ((({ s with locks := locks }.writeToUser a (s.nextValue (some n) b)).setOwns t a false).endWait n) := by
  rw [signalToAddress, h]
  rfl

/-- **`SignalToAddress`**: the kernel waiters follow the mutex to its next owner, and the word with
them. -/
lemma ProtocolInv.signalToAddress (hs : ProtocolInv T IsMutex s) (hrun : s.waitQueue t = none)
    (hmutex : IsMutex a) (howns : s.owns t a = true) :
    ∃ s', s.signalToAddress t a = some s' ∧ ProtocolInv T IsMutex s' ∧ s'.waitQueue t = none ∧
      s'.condVarKey = s.condVarKey ∧ s'.signaling = s.signaling := by
  have hnames := hs.words.names t a hmutex howns
  have howner : ∀ x, s.owns x a = true → x = t := fun x hx =>
    (hs.words.names x a hmutex hx).unique hnames
  -- who waits for the mutex waits for `t`
  have hwaits : ∀ x o, s.locks.lockOwner x = some o → s.locks.addressKey x = a → o = t :=
    fun x o h heq => howner o (heq ▸ hs.owns_of_waiter h)
  have hkey : ∀ x o, s.locks.lockOwner x = some o → s.locks.addressKey x = a → s.locks.threadKey x = (a, false) := by
    intro x o h heq
    rw [(hs.waiter_key h).2, heq]
  rcases hs.waits.inv.removeWaiterByKey_cases hs.waits.settled hs.waits.unique
      (Nat.lt_succ_self _) t a false with ⟨hnone, hcall⟩ |
      ⟨n, hasWaiters, locks, hcall, hn, hnkey, hinv, hset, hkeys, hlock, hhas, hunique⟩
  · refine ⟨_, signalToAddress_none hcall, ?_, hrun, rfl, rfl⟩
    refine hs.setWord (fun x b hb => setOwns_of_ne _ _ _ hb) ?_ (fun hne => absurd rfl hne) ?_
    · intro x hx
      rcases (setOwns_self_iff _ _ _ _).1 hx with ⟨-, hfalse⟩ | ⟨hne, hx⟩
      · simp at hfalse
      · exact absurd (howner x hx) hne
    · intro x o h heq
      have hxt := hwaits x o h heq
      subst hxt
      exact absurd (hkey x o h heq) (hnone x h)
  · obtain ⟨haddress, hkernel⟩ := addressKey_eq hkeys
    have hna : s.locks.addressKey n = a := congrArg Prod.fst hnkey
    have hnt : n ≠ t := by
      rintro rfl
      rw [hs.lockOwner_of_running hrun] at hn
      simp at hn
    have hblocked : s.waitQueue n ≠ none := hs.waits.blocked n (by simp [hn])
    have hvalue : s.addressKeyValue n = T.handle n := (hs.waits.key n hblocked).2.2
    refine ⟨_, signalToAddress_some hcall, ⟨?_, ?_, ?_⟩, ?_, rfl, rfl⟩
    · refine hs.words.set a (fun b _ hb => update_of_ne hb _ _) ?_ ?_ ?_
      · intro x b hb
        simp only [endWait, setOwns, writeToUser, haddress, hna]
        rw [setOwns_of_ne _ _ _ hb, setOwns_of_ne _ _ _ hb]
      · intro x hx
        simp only [endWait, setOwns, writeToUser, haddress, hna] at hx
        simp only [endWait, setOwns, writeToUser, update_self, nextValue, hvalue]
        rcases (setOwns_self_iff _ _ _ _).1 hx with ⟨rfl, -⟩ | ⟨-, hx⟩
        · split_ifs
          · exact Or.inr rfl
          · exact Or.inl rfl
        · rcases (setOwns_self_iff _ _ _ _).1 hx with ⟨-, hfalse⟩ | ⟨hne, hx⟩
          · simp at hfalse
          · exact absurd (howner x hx) hne
      · intro _
        refine ⟨n, ?_⟩
        simp only [endWait, setOwns, writeToUser, haddress, hna]
        exact (setOwns_self_iff _ _ _ _).2 (Or.inl ⟨rfl, rfl⟩)
    · refine ⟨hinv, hset, hunique ?_, ?_, ?_, ?_, ?_, hs.waits.signaling⟩
      · intro x hx hxkey
        exact hnt (hwaits x n hx (congrArg Prod.fst hxkey))
      · intro x hx
        simp only [endWait, setOwns, writeToUser, haddress, hkernel] at hx ⊢
        refine hs.waits.key x fun hnone => hx ?_
        by_cases hxn : x = n
        · rw [hxn, update_self]
        · rw [update_of_ne hxn, hnone]
      · intro x hx
        simp only [endWait, setOwns, writeToUser] at hx ⊢
        rw [hlock x] at hx
        split_ifs at hx with hxn hcond
        · exact absurd rfl hx
        · rw [update_of_ne hxn]
          exact hs.waits.blocked x (by simp [hcond.1])
        · rw [update_of_ne hxn]
          exact hs.waits.blocked x hx
      · intro x hx
        obtain ⟨hq, hnone⟩ := hs.waits.condVar x hx
        have hxn : x ≠ n := by
          rintro rfl
          simp [hnone] at hn
        simp only [endWait, setOwns, writeToUser]
        refine ⟨by rw [update_of_ne hxn, hq], ?_⟩
        rw [hlock x, if_neg hxn, if_neg (by simp [hnone]), hnone]
      · intro x hx
        simp only [endWait, setOwns, writeToUser] at hx ⊢
        have hxn : x ≠ n := by
          rintro rfl
          simp at hx
        rw [update_of_ne hxn] at hx
        rw [hlock x, if_neg hxn]
        split_ifs
        · simp
        · exact hs.waits.address x hx
    · intro x o hx
      simp only [endWait, setOwns, writeToUser, haddress] at hx ⊢
      rw [hlock x] at hx
      split_ifs at hx with hxn hcond
      · -- a waiter that is left: the wait bit was set again
        obtain rfl := Option.some.inj hx
        have hxa : s.locks.addressKey x = a := congrArg Prod.fst hcond.2
        rw [hxa, update_self, nextValue, if_pos (hhas.2 ⟨x, hxn, hcond⟩), hvalue]
      · have hxa : s.locks.addressKey x ≠ a := fun heq =>
          hcond ⟨hwaits x o hx heq ▸ hx, hkey x o hx heq⟩
        rw [update_of_ne hxa]
        exact hs.waiter x o hx
    · show update s.waitQueue n none t = none
      rw [update_of_ne (Ne.symm hnt), hrun]

/-! ## The start and the end of a wait -/

section

variable (hs : ProtocolInv T IsMutex s) (hinv : locks.Inv) (hset : locks.AllSettled)
  (hu : locks.UniqueKeys)
include hs hinv hset hu

lemma ProtocolInv.startWait {x : ι} (howner : locks.lockOwner = s.locks.lockOwner)
    (hkey : ∀ y, y ≠ x → locks.threadKey y = s.locks.threadKey y)
    (hkeyx : locks.threadKey x = (a, false)) (hx : s.locks.lockOwner x = none)
    (hcv : s.condVarKey x = none) (hmutex : IsMutex a)
    (hword : s.word a = T.handle o ||| HandleWaitMask) (q : WaitQueue) :
    ∃ locks', locks.addWaiter (Fintype.card ι + 1) o x = some locks' ∧
      ProtocolInv T IsMutex
        { s with
          locks := locks'
          addressKeyValue := update s.addressKeyValue x (T.handle x)
          waitQueue := update s.waitQueue x (some q) } := by
  have hfree : locks.waitingLockInfo x = none := by
    rw [← hinv.wf.lockOwner_eq_none, howner, hx]
  obtain ⟨locks', hcall, hinv', hset', hkeys, howner', hunique⟩ :=
    hinv.addWaiter hset (Nat.lt_succ_self _) hfree o
  have haddr : ∀ y, y ≠ x → locks'.addressKey y = s.locks.addressKey y ∧
      locks'.isKernelAddressKey y = s.locks.isKernelAddressKey y := by
    intro y hy
    have heq : locks'.threadKey y = s.locks.threadKey y := by rw [hkeys, hkey y hy]
    exact Prod.mk.inj heq
  have haddrx : locks'.addressKey x = a ∧ locks'.isKernelAddressKey x = false := by
    have heq : locks'.threadKey x = (a, false) := by rw [hkeys, hkeyx]
    exact Prod.mk.inj heq
  have hlock : ∀ y, y ≠ x → locks'.lockOwner y = s.locks.lockOwner y := by
    intro y hy
    rw [howner', update_of_ne hy, howner]
  have hlockx : locks'.lockOwner x = some o := by rw [howner', update_self]
  refine ⟨locks', hcall, ⟨hs.words.names, hs.words.owned⟩,
    ⟨hinv', hset', hunique hu, ?_, ?_, ?_, ?_, hs.waits.signaling⟩, ?_⟩
  · intro y hy
    simp only at hy ⊢
    by_cases hyx : y = x
    · subst hyx
      rw [haddrx.1, haddrx.2, update_self]
      exact ⟨rfl, hmutex, rfl⟩
    · rw [update_of_ne hyx] at hy
      rw [(haddr y hyx).1, (haddr y hyx).2, update_of_ne hyx]
      exact hs.waits.key y hy
  · intro y hy
    simp only at hy ⊢
    by_cases hyx : y = x
    · rw [hyx, update_self]
      simp
    · rw [update_of_ne hyx]
      exact hs.waits.blocked y (by rwa [hlock y hyx] at hy)
  · intro y hy
    simp only at hy ⊢
    have hyx : y ≠ x := by
      rintro rfl
      exact hy hcv
    rw [update_of_ne hyx, hlock y hyx]
    exact hs.waits.condVar y hy
  · intro y hy
    simp only at hy ⊢
    by_cases hyx : y = x
    · rw [hyx, hlockx]
      simp
    · rw [update_of_ne hyx] at hy
      rw [hlock y hyx]
      exact hs.waits.address y hy
  · intro y o' hy
    by_cases hyx : y = x
    · subst hyx
      obtain rfl := Option.some.inj (hlockx.symm.trans hy)
      rw [haddrx.1, hword]
    · rw [hlock y hyx] at hy
      rw [(haddr y hyx).1]
      exact hs.waiter y o' hy

lemma ProtocolInv.endWithout {x : ι} (hkey : locks.threadKey = s.locks.threadKey)
    (howner : locks.lockOwner = update s.locks.lockOwner x none) :
    ProtocolInv T IsMutex
      { s with
        locks := locks
        condVarKey := update s.condVarKey x none
        waitQueue := update s.waitQueue x none } := by
  obtain ⟨haddress, hkernel⟩ := addressKey_eq hkey
  have hne : ∀ {y}, update s.waitQueue x none y ≠ none → y ≠ x := by
    rintro y hy rfl
    exact hy (update_self ..)
  refine ⟨⟨hs.words.names, hs.words.owned⟩, ⟨hinv, hset, hu, ?_, ?_, ?_, ?_, hs.waits.signaling⟩, ?_⟩
  · intro y hy
    simp only at hy ⊢
    have hyx := hne hy
    rw [update_of_ne hyx] at hy
    rw [haddress, hkernel]
    exact hs.waits.key y hy
  · intro y hy
    simp only [howner] at hy ⊢
    have hyx : y ≠ x := by
      rintro rfl
      exact hy (update_self ..)
    rw [update_of_ne hyx] at hy ⊢
    exact hs.waits.blocked y hy
  · intro y hy
    simp only [howner] at hy ⊢
    have hyx : y ≠ x := by
      rintro rfl
      exact hy (update_self ..)
    rw [update_of_ne hyx] at hy ⊢
    rw [update_of_ne hyx]
    exact hs.waits.condVar y hy
  · intro y hy
    simp only [howner] at hy ⊢
    have hyx := hne (by rw [hy]; simp)
    rw [update_of_ne hyx] at hy ⊢
    exact hs.waits.address y hy
  · intro y o' hy
    simp only [howner, haddress] at hy ⊢
    have hyx : y ≠ x := by
      rintro rfl
      rw [update_self] at hy
      simp at hy
    rw [update_of_ne hyx] at hy
    exact hs.waiter y o' hy

end

/-- **`CancelWait`** takes a waiter off the list and leaves the word alone. -/
lemma ProtocolInv.cancelWait (hs : ProtocolInv T IsMutex s) (hblocked : s.waitQueue t ≠ none) :
    ∃ s', s.cancelWait t = some s' ∧ ProtocolInv T IsMutex s' := by
  have hremove : ∀ {o}, s.locks.lockOwner t = some o →
      ∃ locks, s.locks.removeWaiter (Fintype.card ι + 1) o t = some locks ∧
        ProtocolInv T IsMutex
          { s with
            locks := locks
            condVarKey := update s.condVarKey t none
            waitQueue := update s.waitQueue t none } := by
    intro o ho
    obtain ⟨locks, hcall, hinv, hset, hkeys, howner, hunique⟩ :=
      hs.waits.inv.removeWaiter hs.waits.settled (Nat.lt_succ_self _) ho
    exact ⟨locks, hcall, hs.endWithout hinv hset (hunique hs.waits.unique) hkeys howner⟩
  rw [CondVarState.cancelWait]
  cases hq : s.waitQueue t with
  | none => exact absurd hq hblocked
  | some q =>
    cases ho : s.locks.lockOwner t with
    | some o =>
      obtain ⟨locks, hcall, hinv⟩ := hremove ho
      refine ⟨_, ?_, hinv⟩
      cases q <;> simp only [hcall] <;> rfl
    | none =>
      cases q with
      | waitForAddress => exact absurd ho (hs.waits.address t hq)
      | waitConditionVariable =>
        refine ⟨_, rfl, hs.endWithout hs.waits.inv hs.waits.settled hs.waits.unique rfl ?_⟩
        rw [← ho, update_eq_self]

/-! ## The other kernel calls -/

section

variable (hs : ProtocolInv T IsMutex s)
include hs

/-- A thread that runs is in no condition variable's tree. -/
lemma ProtocolInv.condVarKey_of_running (h : s.waitQueue t = none) : s.condVarKey t = none := by
  by_contra hne
  have hq := (hs.waits.condVar t hne).1
  rw [h] at hq
  simp at hq

lemma ProtocolInv.writeOther {key : ℕ} (hkey : ¬ IsMutex key)
    (w : BitVec 32) : ProtocolInv T IsMutex (s.writeToUser key w) := by
  have hne : ∀ {b}, IsMutex b → b ≠ key := by
    rintro b hb rfl
    exact hkey hb
  refine ⟨⟨?_, ?_⟩, ⟨hs.waits.inv, hs.waits.settled, hs.waits.unique, hs.waits.key,
    hs.waits.blocked, hs.waits.condVar, hs.waits.address, hs.waits.signaling⟩, ?_⟩
  · intro x b hb hx
    simp only [writeToUser, update_of_ne (hne hb)]
    exact hs.words.names x b hb hx
  · intro b hb hword
    simp only [writeToUser, update_of_ne (hne hb)] at hword
    exact hs.words.owned b hb hword
  · intro x o hx
    simp only [writeToUser, update_of_ne (hne (hs.waiter_key hx).1)]
    exact hs.waiter x o hx

private lemma ProtocolInv.keyed (hrun : s.waitQueue t = none)
    (a : ℕ) : (s.locks.setAddressKey t a false).Inv ∧
      (∀ y, y ≠ t → (s.locks.setAddressKey t a false).threadKey y = s.locks.threadKey y) ∧
      (s.locks.setAddressKey t a false).threadKey t = (a, false) := by
  have hfree : s.locks.waitingLockInfo t = none := by
    rw [← hs.waits.inv.wf.lockOwner_eq_none, hs.lockOwner_of_running hrun]
  refine ⟨hs.waits.inv.setAddressKey hfree a false, ?_, ?_⟩
  · intro y hy
    simp [LockState.threadKey, LockState.setAddressKey, hy]
  · simp [LockState.threadKey, LockState.setAddressKey]

lemma ProtocolInv.waitForAddress (hrun : s.waitQueue t = none) (hmutex : IsMutex a) (handle : BitVec 32) :
    ∃ s', s.waitForAddress T t handle a = some s' ∧ ProtocolInv T IsMutex s' := by
  rw [CondVarState.waitForAddress]
  split_ifs with hword
  · exact ⟨s, rfl, hs⟩
  · cases hlookup : T.lookup handle with
    | none => exact ⟨s, rfl, hs⟩
    | some o =>
      obtain rfl := (T.lookup_eq_some handle o).1 hlookup
      obtain ⟨hinv, hother, hself⟩ := hs.keyed hrun a
      obtain ⟨locks, hcall, hinv'⟩ := hs.startWait hinv hs.waits.settled hs.waits.unique rfl
        hother hself (hs.lockOwner_of_running hrun) (hs.condVarKey_of_running hrun) hmutex
        (not_not.1 hword) .waitForAddress
      refine ⟨_, ?_, hinv'⟩
      simp only [hcall]
      rfl

lemma ProtocolInv.enterCondVar (hrun : s.waitQueue t = none) (hmutex : IsMutex a) (key : ℕ) :
    ProtocolInv T IsMutex
      { s with
        locks := s.locks.setAddressKey t a false
        addressKeyValue := update s.addressKeyValue t (T.handle t)
        condVarKey := update s.condVarKey t (some key)
        waitQueue := update s.waitQueue t (some .waitConditionVariable) } := by
  obtain ⟨hinv, hother, hself⟩ := hs.keyed hrun a
  have hnone := hs.lockOwner_of_running hrun
  have hne : ∀ {y}, s.locks.lockOwner y ≠ none → y ≠ t := by
    rintro y hy rfl
    exact hy hnone
  refine ⟨⟨hs.words.names, hs.words.owned⟩, ⟨hinv, hs.waits.settled, hs.waits.unique, ?_, ?_, ?_, ?_,
    hs.waits.signaling⟩, ?_⟩
  · intro y hy
    simp only at hy ⊢
    by_cases hyt : y = t
    · subst hyt
      obtain ⟨haddress, hkernel⟩ := Prod.mk.inj hself
      rw [haddress, hkernel, update_self]
      exact ⟨rfl, hmutex, rfl⟩
    · obtain ⟨haddress, hkernel⟩ := Prod.mk.inj (hother y hyt)
      rw [update_of_ne hyt] at hy
      rw [haddress, hkernel, update_of_ne hyt]
      exact hs.waits.key y hy
  · intro y hy
    simp only
    rw [update_of_ne (hne hy)]
    exact hs.waits.blocked y hy
  · intro y hy
    simp only at hy ⊢
    by_cases hyt : y = t
    · subst hyt
      exact ⟨update_self .., hnone⟩
    · rw [update_of_ne hyt] at hy ⊢
      exact hs.waits.condVar y hy
  · intro y hy
    simp only at hy
    have hyt : y ≠ t := by
      rintro rfl
      rw [update_self] at hy
      simp at hy
    rw [update_of_ne hyt] at hy
    exact hs.waits.address y hy
  · intro y o hy
    have hyt : y ≠ t := hne (by rw [show s.locks.lockOwner y = some o from hy]; simp)
    obtain ⟨haddress, -⟩ := Prod.mk.inj (hother y hyt)
    simp only [haddress]
    exact hs.waiter y o hy

/-- **`Wait`** passes the mutex on like `SignalToAddress`. -/
lemma ProtocolInv.wait (hrun : s.waitQueue t = none)
    (hmutex : IsMutex a) (howns : s.owns t a = true) {key : ℕ} (hkey : ¬ IsMutex key)
    (timeout : ℤ) :
    ∃ s', s.wait T t a key timeout = some s' ∧ ProtocolInv T IsMutex s' := by
  obtain ⟨s1, hcall, hs1, hrun1, -, -⟩ :=
    (hs.writeOther hkey 1#32).signalToAddress (t := t) hrun hmutex howns
  rw [CondVarState.wait, hcall]
  simp only [Option.map_some]
  split_ifs
  · exact ⟨s1, rfl, hs1⟩
  · exact ⟨_, rfl, hs1.enterCondVar hrun1 hmutex key⟩

/-- **`SignalImpl`**: the thread takes a free mutex, or becomes a waiter of its owner. -/
lemma ProtocolInv.signalImpl {x : ι} (hq : s.waitQueue x = some .waitConditionVariable) (hx : s.locks.lockOwner x = none)
    (hcv : s.condVarKey x = none) :
    ∃ s', s.signalImpl T x = some s' ∧ ProtocolInv T IsMutex s' := by
  obtain ⟨hkernel, hmutex, hvalue⟩ := hs.waits.key x (by simp [hq])
  rw [CondVarState.signalImpl]
  simp only [hvalue]
  by_cases hzero : s.word (s.locks.addressKey x) = 0#32
  · rw [if_pos hzero, if_pos hzero]
    refine ⟨_, rfl, ?_⟩
    have hacquired := hs.acquire hmutex hzero x
    have hended := hacquired.endWithout (x := x) hs.waits.inv hs.waits.settled
      hs.waits.unique rfl (by rw [← hx]; exact (update_eq_self _ _).symm)
    have hsame : update s.condVarKey x none = s.condVarKey := by
      rw [← hcv, update_eq_self]
    simp only [setOwns, writeToUser, hsame] at hended
    exact hended
  · rw [if_neg hzero, if_neg hzero]
    obtain ⟨o, ho⟩ := hs.words.owned _ hmutex hzero
    have hnames := hs.words.names o _ hmutex ho
    rw [hnames.tag, T.lookup_handle]
    have hmasked := hs.setWaitMask hmutex hzero
    have hkey : s.locks.threadKey x = (s.locks.addressKey x, false) := by
      rw [LockState.threadKey, hkernel]
    obtain ⟨locks, hcall, hinv⟩ := hmasked.startWait (o := o) hs.waits.inv hs.waits.settled
      hs.waits.unique rfl (fun _ _ => rfl) hkey hx hcv hmutex
      (by simp only [writeToUser, update_self]; exact hnames.or_mask)
      .waitConditionVariable
    refine ⟨{ s.writeToUser (s.locks.addressKey x)
      (s.word (s.locks.addressKey x) ||| HandleWaitMask) with locks := locks }, ?_, ?_⟩
    · show Option.map _ (s.locks.addWaiter (Fintype.card ι + 1) o x) = _
      rw [hcall]
      rfl
    · have hvalues : update s.addressKeyValue x (T.handle x) = s.addressKeyValue := by
        rw [← hvalue, update_eq_self]
      have hqueues : update s.waitQueue x (some .waitConditionVariable) =
          s.waitQueue := by
        rw [← hq, update_eq_self]
      simp only [writeToUser, hvalues, hqueues] at hinv
      exact hinv

variable {call : SignalCall}

lemma ProtocolInv.signalNext {x : ι} (hcall : s.signaling = some call) (hx : s.condVarKey x = some call.cvKey) :
    ∃ s', s.signalNext T call x = some s' ∧ ProtocolInv T IsMutex s' := by
  obtain ⟨hq, hnone⟩ := hs.waits.condVar x (by simp [hx])
  rw [CondVarState.signalNext]
  have htaken : ProtocolInv T IsMutex
      { s with
        condVarKey := update s.condVarKey x none
        signaling := some { call with numWaiters := call.numWaiters + 1 } } := by
    refine ⟨hs.words, ⟨hs.waits.inv, hs.waits.settled, hs.waits.unique, hs.waits.key,
      hs.waits.blocked, ?_, hs.waits.address, ?_⟩, hs.waiter⟩
    · intro y hy
      refine hs.waits.condVar y ?_
      by_cases hyx : y = x
      · simp [hyx, hx]
      · simpa [hyx] using hy
    · intro call' hcall'
      obtain rfl := Option.some.inj hcall'
      exact hs.waits.signaling call hcall
  exact htaken.signalImpl hq hnone (update_self ..)

lemma ProtocolInv.signalEnd (hcall : s.signaling = some call) : ProtocolInv T IsMutex (s.signalEnd call) := by
  have hfree : ProtocolInv T IsMutex { s with signaling := none } :=
    ⟨hs.words, ⟨hs.waits.inv, hs.waits.settled, hs.waits.unique, hs.waits.key, hs.waits.blocked,
      hs.waits.condVar, hs.waits.address, by simp⟩, hs.waiter⟩
  simp only [CondVarState.signalEnd]
  split_ifs
  · exact hfree
  · exact hfree.writeOther (hs.waits.signaling call hcall) _

/-- **Every step completes and keeps the invariant.** -/
theorem ProtocolInv.exec {op : ProtocolOp ι} (hop : s.Admissible IsMutex op) :
    ∃ s', s.exec T op = some s' ∧ ProtocolInv T IsMutex s' := by
  cases op with
  | acquire t a =>
    refine ⟨_, rfl, ?_⟩
    split_ifs with hzero
    · exact hs.acquire hop.2 hzero t
    · exact hs
  | setWaitMask t a =>
    refine ⟨_, rfl, ?_⟩
    split_ifs with hzero
    · exact hs
    · exact hs.setWaitMask hop.2 hzero
  | release t a =>
    refine ⟨_, rfl, ?_⟩
    split_ifs with hword
    · exact hs.release hop.2 hword
    · exact hs
  | signalToAddress t a =>
    obtain ⟨-, hrun, hmutex, howns⟩ := hop
    obtain ⟨s', hcall, hs', -⟩ := hs.signalToAddress hrun hmutex howns
    exact ⟨s', hcall, hs'⟩
  | waitForAddress t handle a => exact hs.waitForAddress hop.2.1 hop.2.2 handle
  | wait t a key timeout =>
    obtain ⟨-, hrun, hmutex, howns, hkey⟩ := hop
    exact hs.wait hrun hmutex howns hkey timeout
  | signal t key count =>
    refine ⟨_, rfl, hs.words, ⟨hs.waits.inv, hs.waits.settled, hs.waits.unique, hs.waits.key,
      hs.waits.blocked, hs.waits.condVar, hs.waits.address, ?_⟩, hs.waiter⟩
    intro call hcall
    obtain rfl := Option.some.inj hcall
    exact hop.2.2
  | signalNext call target => exact hs.signalNext hop.1 hop.2.1
  | signalEnd call => exact ⟨_, rfl, hs.signalEnd hop.1⟩
  | cancelWait t => exact hs.cancelWait hop.2

end

end Steps

lemma protocolInv_start (T : ThreadHandles ι) (IsMutex : ℕ → Prop) (base : ι → ℤ) :
    ProtocolInv T IsMutex (start base) := by
  obtain ⟨hinv, hset, hunique⟩ := inv_start base
  refine ⟨⟨?_, ?_⟩, ⟨hinv, hset, hunique, ?_, ?_, ?_, ?_, ?_⟩, ?_⟩
  all_goals simp [start, LockState.start, lockOwner]

/-- **The mutex protocol.**  In every reachable state the word of a mutex with a kernel waiter is the
handle of the thread it waits for, with the wait bit set, and no two threads consider themselves the
owner of one mutex. -/
theorem mutex_protocol_sound (T : ThreadHandles ι) (IsMutex : ℕ → Prop) (base : ι → ℤ)
    {s : CondVarState ι} (hrun : Relation.ReflTransGen (Step T IsMutex) (start base) s) :
    (∀ t o, s.locks.lockOwner t = some o → s.word (s.locks.addressKey t) = T.handle o ||| HandleWaitMask) ∧
    ∀ t t' a, IsMutex a → s.owns t a = true → s.owns t' a = true → t = t' := by
  have hinv : ProtocolInv T IsMutex s := by
    induction hrun with
    | refl => exact protocolInv_start T IsMutex base
    | tail _ hstep ih =>
      obtain ⟨op, hop, hexec⟩ := hstep
      obtain ⟨s', hs', hinv⟩ := ih.exec hop
      exact Option.some.inj (hs'.symm.trans hexec) ▸ hinv
  refine ⟨hinv.waiter, ?_⟩
  intro t t' a ha ht ht'
  exact (hinv.words.names t a ha ht).unique (hinv.words.names t' a ha ht')

instance neZero_threads : NeZero 2 := ⟨by decide⟩

def twoThreads : ThreadHandles (Fin 2) where
  handle := fun t => if t = 0 then 1#32 else 2#32
  lookup := fun h => if h = 1#32 then some 0 else if h = 2#32 then some 1 else none
  lookup_eq_some := by
    intro h t
    fin_cases t <;> split_ifs with h1 h2 <;> simp_all [eq_comm]
  handle_ne_zero := by decide
  handle_and_mask := by decide

def after (T : ThreadHandles ι) (s : CondVarState ι) (op : ProtocolOp ι) : CondVarState ι :=
  (s.exec T op).getD s

lemma exec_after {s : CondVarState ι} {op : ProtocolOp ι}
    (h : (s.exec T op).isSome = true) : s.exec T op = some (s.after T op) := by
  obtain ⟨s', hs'⟩ := Option.isSome_iff_exists.1 h
  rw [after, hs']
  rfl

/-- Thread 0 holds the mutex at 16, and thread 1 has set the wait bit. -/
def contended : CondVarState (Fin 2) :=
  ((start fun _ => 44).after twoThreads (.acquire 0 16)).after twoThreads (.setWaitMask 1 16)

/-- Thread 1 then waits in the kernel. -/
theorem mutex_protocol_sound_one_waiter :
    (contended.after twoThreads (.waitForAddress 1 1#32 16)).locks.lockOwner 1 = some 0 ∧
    (contended.after twoThreads (.waitForAddress 1 1#32 16)).word 16 = twoThreads.handle 0 ||| HandleWaitMask := by
  have hacquire : Step twoThreads (· = 16) (start fun _ => 44) ((start fun _ => 44).after twoThreads (.acquire 0 16)) :=
    ⟨.acquire 0 16, ⟨rfl, rfl⟩, exec_after rfl⟩
  have hmask : Step twoThreads (· = 16) ((start fun _ => 44).after twoThreads (.acquire 0 16)) contended :=
    ⟨.setWaitMask 1 16, ⟨rfl, rfl⟩, exec_after rfl⟩
  have hwait : Step twoThreads (· = 16) contended (contended.after twoThreads (.waitForAddress 1 1#32 16)) :=
    ⟨.waitForAddress 1 1#32 16, ⟨rfl, rfl, rfl⟩, exec_after rfl⟩
  have hrun := ((Relation.ReflTransGen.single hacquire).tail hmask).tail hwait
  have howner : (contended.after twoThreads (.waitForAddress 1 1#32 16)).locks.lockOwner 1 =
      some 0 := rfl
  exact ⟨howner, (mutex_protocol_sound twoThreads (· = 16) _ hrun).1 1 0 howner⟩

end CondVarState

end Voltemu.Kernel
