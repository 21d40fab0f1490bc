import Voltemu.FileSys.AlignmentMatchingStorage

/-!
# Aligned accesses are plain accesses

Reads and writes of an `AlignmentMatchingStorageImpl` do what a plain access does.

* `Reading`: the buffer is filled up to a point from the storage.  The core and the head fill the first part of it, whatever
  is behind it, and every iteration of the tail fills more.
* `Writing`: the storage is replaced up to a point.  A block that is changed in part is read, changed and written back.
* `read_plain` and `write_plain`, together **`aligned_access_plain`**.
-/

namespace Voltemu.FileSys

open Overwrite Nat

/-! ## Alignment -/

section Alignment

variable {x d n : ℕ}

lemma alignDown_le (x d : ℕ) : alignDown x d ≤ x := sub_le _ _

lemma alignDown_eq (x d : ℕ) : alignDown x d = d * (x / d) := by
  rw [alignDown]
  have := div_add_mod x d
  omega

lemma dvd_alignDown (x d : ℕ) : d ∣ alignDown x d := ⟨x / d, alignDown_eq x d⟩

lemma lt_alignDown_add (hd : 0 < d) : x < alignDown x d + d := by
  have := mod_lt x hd
  rw [alignDown]
  omega

lemma alignDown_add_le (hn : d ∣ n) (hx : x < n) : alignDown x d + d ≤ n := by
  obtain ⟨k, rfl⟩ := hn
  have hlt : x / d < k := Nat.div_lt_of_lt_mul hx
  calc alignDown x d + d = d * (x / d + 1) := by rw [alignDown_eq, Nat.mul_succ]
    _ ≤ d * k := mul_le_mul_left d hlt

lemma dvd_alignUp (x d : ℕ) : d ∣ alignUp x d := by
  have hdown := dvd_alignDown x d
  rw [alignDown] at hdown
  rw [alignUp]
  split_ifs
  · exact hdown
  · exact Nat.dvd_add hdown (Nat.dvd_refl d)

lemma le_alignUp (hd : 0 < d) : x ≤ alignUp x d := by
  have := mod_lt x hd
  have := mod_le x d
  rw [alignUp]
  split_ifs <;> omega

lemma alignUp_eq_of_lt (h : x < alignUp x d) : alignUp x d = alignDown x d + d := by
  have := mod_le x d
  rw [alignUp] at h ⊢
  split_ifs at h ⊢
  · omega
  · rfl

end Alignment

namespace AlignmentMatchingStorageImpl

section Access

variable {align limit offset buffer size workBufSize n : ℕ} {m0 storage : ℕ → Byte} {s : State}

/-- An access of the base storage is aligned, and inside of it. -/
def AlignedAccess (align limit : ℕ) (access : ℕ × ℕ) : Prop :=
  align ∣ access.1 ∧ align ∣ access.2 ∧ access.1 + access.2 ≤ limit

/-- **The buffer is filled** up to `n`. -/
structure Reading (align limit offset buffer size : ℕ) (m0 storage : ℕ → Byte) (n : ℕ) (s : State) :
    Prop where
  filled : Filled m0 s.memory buffer size n fun i => storage (offset + i)
  base : s.baseStorage = storage
  aligned : ∀ access ∈ s.accesses, AlignedAccess align limit access
  asserts : s.asserts = true

lemma readBaseToWork_workBuf {block k : ℕ} (hk : k < align) :
    (s.readBaseToWork align block).workBuf k = s.baseStorage (block + k) := by
  simp only [State.readBaseToWork]
  rw [overwrite_inside (by omega), Nat.sub_zero]

lemma aligned_append {accesses : List (ℕ × ℕ)} {access : ℕ × ℕ}
    (h : ∀ access ∈ accesses, AlignedAccess align limit access)
    (hnew : AlignedAccess align limit access) :
    ∀ access' ∈ accesses ++ [access], AlignedAccess align limit access' := by
  intro access' hmem
  rcases List.mem_append.1 hmem with hmem | hmem
  · exact h access' hmem
  · obtain rfl : access' = access := by simpa using hmem
    exact hnew

lemma Reading.block (hstorage : align ∣ limit) (hin : offset + size ≤ limit)
    (h : Reading align limit offset buffer size m0 storage n s) {k : ℕ} (hk : n + k ≤ size)
    (hblock : offset + n + k ≤ alignDown (offset + n) align + align) (hpos : 0 < k) :
    Reading align limit offset buffer size m0 storage (n + k)
      ((s.readBaseToWork align (alignDown (offset + n) align)).copyFromWork (buffer + n)
        (offset + n - alignDown (offset + n) align) k) := by
  have hle := alignDown_le (offset + n) align
  refine ⟨?_, h.base, aligned_append h.aligned ⟨dvd_alignDown _ _, Nat.dvd_refl _, alignDown_add_le hstorage (by omega)⟩,
    h.asserts⟩
  show Filled m0 (overwrite s.memory (buffer + n) k fun i =>
    (s.readBaseToWork align (alignDown (offset + n) align)).workBuf
      (offset + n - alignDown (offset + n) align + i)) buffer size (n + k) _
  refine h.filled.append hk ?_
  intro i hi
  rw [readBaseToWork_workBuf (by omega), h.base]
  congr 1
  omega

lemma readTail_spec (hd : 0 < align) (hstorage : align ∣ limit) (hin : offset + size ≤ limit)
    (fuel : ℕ) : ∀ (n : ℕ) (s : State), size - n ≤ fuel → n ≤ size →
      Reading align limit offset buffer size m0 storage n s →
      Reading align limit offset buffer size m0 storage size
        (readTail align offset buffer size fuel (offset + n) (offset + size - (offset + n)) s) := by
  induction fuel with
  | zero =>
    intro n s hfuel hn h
    obtain rfl : n = size := by omega
    exact h
  | succ fuel ih =>
    intro n s hfuel hn h
    rw [readTail]
    by_cases hrest : offset + size - (offset + n) > 0
    · rw [if_pos hrest]
      have hlt : offset + n < alignDown (offset + n) align + align := lt_alignDown_add hd
      have hle := alignDown_le (offset + n) align
      dsimp only
      generalize hk : min (alignDown (offset + n) align + align - (offset + n)) (offset + size - (offset + n)) = k
      have hnext := h.block hstorage hin (k := k) (by omega) (by omega) (by omega)
      have hdone := ih (n + k) _ (by omega) (by omega) hnext
      rw [show offset + n - offset = n by omega, show offset + n + k = offset + (n + k) by omega,
        show offset + size - (offset + n) - k = offset + size - (offset + (n + k)) by omega]
      have hfirst : decide (n + k ≤ size) = true := decide_eq_true (by omega)
      have hsecond : decide (offset + n - alignDown (offset + n) align + k ≤ align) = true :=
        decide_eq_true (by omega)
      rw [hfirst, hsecond]
      simpa only [State.check, Bool.and_true] using hdone
    · rw [if_neg hrest]
      obtain rfl : n = size := by omega
      exact h

/-- The state that an access starts from. -/
def fresh (memory workBuf baseStorage : ℕ → Byte) : State := ⟨memory, workBuf, baseStorage, [], true⟩

lemma reading_fresh (memory workBuf baseStorage : ℕ → Byte) :
    Reading align limit offset buffer size memory baseStorage 0 (fresh memory workBuf baseStorage) :=
  ⟨.refl _ _ _ _, rfl, fun _ h => absurd h List.not_mem_nil, rfl⟩

/-- The core of an access whose address matches: it starts at the next aligned offset, if there is a core at all. -/
lemma matchingExtents_spec (hd : 0 < align) (e : Extents) (he : e = matchingExtents align offset buffer size) :
    e.coreSize = 0 ∧ e.coveredOffset = offset ∨
    ∃ u, align ∣ offset + u ∧ 0 < e.coreSize ∧ align ∣ e.coreSize ∧ e.coveredOffset = offset + u ∧
      e.coreOffset = offset + u ∧ e.alignedCoreBuffer = buffer + u ∧ u + e.coreSize ≤ size ∧
      (0 < u → offset + u = alignDown offset align + align) := by
  have hup : offset ≤ alignUp offset align := le_alignUp hd
  have hu : alignUp offset align = offset + getRoundUpDifference offset align := by
    rw [getRoundUpDifference]
    omega
  have hdvd := dvd_alignUp offset align
  have hblock : offset < alignUp offset align → _ := alignUp_eq_of_lt
  rw [hu] at hdvd hblock
  subst he
  dsimp only [matchingExtents]
  rw [hu]
  generalize getRoundUpDifference offset align = u at *
  have hle := alignDown_le (size - u) align
  by_cases hsmall : size < u
  · rw [if_pos hsmall]
    exact .inl ⟨rfl, if_neg (lt_irrefl 0)⟩
  · rw [if_neg hsmall]
    by_cases hzero : alignDown (size - u) align = 0
    · rw [hzero]
      exact .inl ⟨rfl, if_neg (lt_irrefl 0)⟩
    · have hpos := Nat.pos_of_ne_zero hzero
      exact .inr ⟨u, hdvd, hpos, dvd_alignDown _ _, if_pos hpos, rfl, rfl, by omega, fun h => hblock (by omega)⟩

lemma readHead_spec (hwork : align ≤ workBufSize) (hin : offset + size ≤ limit) {u c : ℕ}
    (hhead : 0 < u → offset + u = alignDown offset align + align) (hfits : u + c ≤ size)
    (hcore : Patched m0 s.memory (buffer + u) c fun i => storage (offset + (u + i))) (hbase : s.baseStorage = storage)
    (haligned : ∀ access ∈ s.accesses, AlignedAccess align limit access) (hasserts : s.asserts = true) :
    Reading align limit offset buffer size m0 storage (u + c)
      (readHead workBufSize align offset buffer (offset + u) s) := by
  rw [readHead]
  by_cases hpos : offset < offset + u
  · have hblock := hhead (by omega)
    have hdown := alignDown_le offset align
    have hgap : getRoundDownDifference offset align = offset - alignDown offset align := rfl
    rw [if_pos hpos]
    refine ⟨?_, hbase, aligned_append haligned ⟨dvd_alignDown _ _, Nat.dvd_refl _, by dsimp only; omega⟩, ?_⟩
    · refine Patched.filled ?_ hfits
      show Patched m0 (overwrite s.memory buffer (offset + u - offset) fun i =>
        (s.readBaseToWork align (alignDown offset align)).workBuf
          (getRoundDownDifference offset align + i)) buffer (u + c) _
      rw [Nat.add_sub_cancel_left]
      refine hcore.prepend ?_
      intro i hi
      rw [readBaseToWork_workBuf (by omega), hbase]
      congr 1
      omega
    · show (s.asserts && decide (getRoundDownDifference offset align + (offset + u - offset) ≤ workBufSize)) = true
      rw [hasserts, decide_eq_true (by omega)]
      rfl
  · rw [if_neg hpos]
    obtain rfl : u = 0 := by omega
    refine ⟨Patched.filled ?_ hfits, hbase, haligned, hasserts⟩
    simpa using hcore

lemma readHead_matching (hd : 0 < align) (hwork : align ≤ workBufSize) (hin : offset + size ≤ limit)
    (workBuf : ℕ → Byte) (e : Extents) (he : e = matchingExtents align offset buffer size) :
    ∃ n ≤ size, e.coveredOffset + (readCore e (fresh m0 workBuf storage)).2 = offset + n ∧
      Reading align limit offset buffer size m0 storage n
        (readHead workBufSize align offset buffer e.coveredOffset (readCore e (fresh m0 workBuf storage)).1) := by
  have hgaps : e.offsetGap = 0 ∧ e.bufferGap = 0 := by
    rw [he]
    exact ⟨rfl, rfl⟩
  rcases matchingExtents_spec hd e he with ⟨hzero, hcovered⟩ | ⟨u, hu, hpos, hdvd, hcovered, hoffset, hbuffer, hfits, hhead⟩
  · refine ⟨0, zero_le _, ?_, ?_⟩
    · rw [readCore, if_neg (by omega), hcovered, hzero]
    · rw [readCore, if_neg (by omega), readHead, if_neg (by omega)]
      exact reading_fresh _ _ _
  · have hcore : readCore e (fresh m0 workBuf storage) =
        ((fresh m0 workBuf storage).readBase (buffer + u) e.coreSize (offset + u), e.coreSize) := by
      rw [readCore, if_pos hpos, hgaps.1, hgaps.2, hbuffer, hoffset]
      rfl
    have haccess : AlignedAccess align limit (offset + u, e.coreSize) := ⟨hu, hdvd, by dsimp only; omega⟩
    refine ⟨u + e.coreSize, hfits, by rw [hcore, hcovered, add_assoc], ?_⟩
    rw [hcore, hcovered]
    refine readHead_spec hwork hin hhead hfits ?_ rfl ?_ rfl
    · show overwrite m0 (buffer + u) e.coreSize (fun i => storage (offset + u + i)) = _
      simp only [add_assoc]
    · intro access hmem
      obtain rfl : access = (offset + u, e.coreSize) := by simpa [State.readBase, fresh] using hmem
      exact haccess

lemma readCore_shifted (hd : 0 < align) (hin : offset + size ≤ limit) (bufferAlignment : ℕ)
    (workBuf : ℕ → Byte) (e : Extents) (he : e = shiftedExtents align bufferAlignment offset buffer size) :
    (readCore e (fresh m0 workBuf storage)).2 ≤ size ∧
      Reading align limit offset buffer size m0 storage (readCore e (fresh m0 workBuf storage)).2
        (readCore e (fresh m0 workBuf storage)).1 := by
  have hdown := alignDown_le offset align
  have hlt : offset < alignDown offset align + align := lt_alignDown_add hd
  have hgap : e.offsetGap = offset - alignDown offset align := by
    rw [he]
    rfl
  have hbuffer : e.alignedCoreBuffer = buffer + e.bufferGap := by
    rw [he]
    rfl
  have hoffset : e.coreOffset = alignDown offset align := by
    rw [he]
    rfl
  have hsize : align ∣ e.coreSize ∧ (0 < e.coreSize → e.bufferGap + e.coreSize ≤ size) := by
    have hle := alignDown_le (size - e.bufferGap) align
    have hcore : e.coreSize = if size < e.bufferGap then 0 else alignDown (size - e.bufferGap) align := by
      rw [he]
      rfl
    rw [hcore]
    split_ifs with hsmall
    · exact ⟨dvd_zero _, fun h => absurd h (lt_irrefl 0)⟩
    · exact ⟨dvd_alignDown _ _, fun _ => by omega⟩
  clear he
  rw [readCore, hgap, hbuffer, hoffset]
  by_cases hpos : e.coreSize > 0
  swap
  · rw [if_neg hpos, show e.coreSize = 0 by omega]
    exact ⟨zero_le _, reading_fresh _ _ _⟩
  have hfits := hsize.2 hpos
  have hmultiple := le_of_dvd hpos hsize.1
  have haccess : ∀ access ∈ [(alignDown offset align, e.coreSize)],
      AlignedAccess align limit access := by
    intro access hmem
    obtain rfl := List.mem_singleton.1 hmem
    exact ⟨dvd_alignDown _ _, hsize.1, by dsimp only; omega⟩
  rw [if_pos hpos]
  dsimp only
  by_cases hmove : offset - alignDown offset align ≠ 0 ∨ e.bufferGap ≠ 0
  · rw [if_pos hmove]
    refine ⟨by dsimp only; omega, ⟨?_, ?_⟩, rfl, haccess, rfl⟩
    · intro i hi
      dsimp only [State.memmove, State.readBase, fresh] at hi ⊢
      rw [overwrite_inside (by omega), overwrite_inside (by omega)]
      congr 1
      omega
    · intro a ha
      dsimp only [State.memmove, State.readBase, fresh]
      rw [overwrite_outside (by omega), overwrite_outside (by omega)]
  · rw [if_neg hmove]
    have hzero : e.bufferGap = 0 ∧ alignDown offset align = offset := by omega
    rw [hzero.1, hzero.2, add_zero]
    rw [hzero.2] at haccess
    refine ⟨by dsimp only; omega, Patched.filled rfl (by dsimp only; omega), rfl, haccess, rfl⟩

/-- **A read is a plain read**: the buffer has the bytes of the storage, the memory around it and the storage are as they
were, every access of the storage is aligned and inside of it, and every `ASSERT` holds. -/
lemma read_plain (bufferAlignment : ℕ) (memory workBuf baseStorage : ℕ → Byte) (hd : 0 < align)
    (hstorage : align ∣ limit) (hwork : align ≤ workBufSize) (hbuffer : buffer ≠ 0)
    (hin : offset + size ≤ limit) :
    let s := read workBufSize align bufferAlignment offset buffer size (fresh memory workBuf baseStorage)
    s.memory = overwrite memory buffer size (fun i => baseStorage (offset + i)) ∧ s.baseStorage = baseStorage ∧
    (∀ access ∈ s.accesses, AlignedAccess align limit access) ∧ s.asserts = true := by
  have hreading : Reading align limit offset buffer size memory baseStorage size
      (read workBufSize align bufferAlignment offset buffer size (fresh memory workBuf baseStorage)) := by
    have hchecks : ((fresh memory workBuf baseStorage).check (decide (workBufSize ≥ align))) =
        fresh memory workBuf baseStorage ∧
        (fresh memory workBuf baseStorage).check (decide (buffer ≠ 0)) = fresh memory workBuf baseStorage := by
      rw [decide_eq_true hwork, decide_eq_true hbuffer]
      exact ⟨rfl, rfl⟩
    rw [read, hchecks.1]
    by_cases hsize : size = 0
    · subst hsize
      exact reading_fresh _ _ _
    rw [if_neg hsize]
    dsimp only
    rw [hchecks.2]
    by_cases hmatching : matching align bufferAlignment offset buffer = true
    · rw [if_pos hmatching]
      generalize he : matchingExtents align offset buffer size = e
      obtain ⟨n, hn, htail, hhead⟩ := readHead_matching hd hwork hin workBuf e he.symm
      rw [htail]
      exact readTail_spec hd hstorage hin size n _ (by omega) hn hhead
    · rw [if_neg hmatching]
      have hcovered : (shiftedExtents align bufferAlignment offset buffer size).coveredOffset = offset := rfl
      generalize he : shiftedExtents align bufferAlignment offset buffer size = e at *
      obtain ⟨hn, hcore⟩ := readCore_shifted hd hin bufferAlignment workBuf e he.symm
      rw [hcovered, readHead, if_neg (lt_irrefl offset)]
      exact readTail_spec hd hstorage hin size _ _ (by omega) hn hcore
  exact ⟨hreading.filled.eq_overwrite, hreading.base, hreading.aligned, hreading.asserts⟩

/-! ## `Write` -/

/-- **The storage is replaced** up to `n`. -/
structure Writing (align limit offset buffer : ℕ) (memory storage0 : ℕ → Byte) (n : ℕ) (s : State) :
    Prop where
  patched : Patched storage0 s.baseStorage offset n fun i => memory (buffer + i)
  memory_eq : s.memory = memory
  aligned : ∀ access ∈ s.accesses, AlignedAccess align limit access
  asserts : s.asserts = true

variable {memory storage0 : ℕ → Byte}

lemma writing_fresh (memory workBuf baseStorage : ℕ → Byte) :
    Writing align limit offset buffer memory baseStorage 0 (fresh memory workBuf baseStorage) :=
  ⟨.refl _ _ _, rfl, fun _ h => absurd h List.not_mem_nil, rfl⟩

/-- A block that is read, changed in part and written back. -/
def changeBlock (align block dst src k : ℕ) (s : State) : State :=
  ((s.readBaseToWork align block).copyToWork dst src k).writeBaseFromWork align block

lemma changeBlock_baseStorage {block at' src k : ℕ} (hin : block ≤ at' ∧ at' + k ≤ block + align) :
    (changeBlock align block (at' - block) src k s).baseStorage =
      overwrite s.baseStorage at' k fun i => s.memory (src + i) := by
  rw [← overwrite_block hin]
  funext a
  dsimp only [changeBlock, State.writeBaseFromWork, State.copyToWork, State.readBaseToWork]
  by_cases ha : block ≤ a ∧ a < block + align
  · rw [overwrite_inside ha, overwrite_inside ha]
    by_cases hpart : at' - block ≤ a - block ∧ a - block < at' - block + k
    · rw [overwrite_inside hpart, overwrite_inside hpart]
    · rw [overwrite_outside hpart, overwrite_outside hpart, overwrite_inside (by omega), Nat.sub_zero]
  · rw [overwrite_outside ha, overwrite_outside ha]

lemma aligned_changeBlock {block dst src k : ℕ} (hblock : align ∣ block) (hin : block + align ≤ limit)
    (h : ∀ access ∈ s.accesses, AlignedAccess align limit access) :
    ∀ access ∈ (changeBlock align block dst src k s).accesses, AlignedAccess align limit access :=
  have haccess : AlignedAccess align limit (block, align) := ⟨hblock, Nat.dvd_refl _, hin⟩
  aligned_append (aligned_append h haccess) haccess

lemma Writing.block (hstorage : align ∣ limit) (hin : offset + size ≤ limit)
    (h : Writing align limit offset buffer memory storage0 n s) {k : ℕ} (hk : n + k ≤ size)
    (hblock : offset + n + k ≤ alignDown (offset + n) align + align) (hpos : 0 < k) :
    Writing align limit offset buffer memory storage0 (n + k)
      (changeBlock align (alignDown (offset + n) align)
        (offset + n - alignDown (offset + n) align) (buffer + n) k s) := by
  have hle := alignDown_le (offset + n) align
  refine ⟨?_, h.memory_eq, aligned_changeBlock (dvd_alignDown _ _) (alignDown_add_le hstorage (by omega)) h.aligned,
    h.asserts⟩
  rw [changeBlock_baseStorage ⟨hle, hblock⟩]
  refine h.patched.append ?_
  intro i _
  rw [h.memory_eq, add_assoc]

lemma writeTail_spec (hd : 0 < align) (hstorage : align ∣ limit) (hin : offset + size ≤ limit)
    (fuel : ℕ) : ∀ (n : ℕ) (s : State), size - n ≤ fuel → n ≤ size →
      Writing align limit offset buffer memory storage0 n s →
      Writing align limit offset buffer memory storage0 size
        (writeTail align offset buffer size fuel (offset + n) (offset + size - (offset + n)) s) := by
  induction fuel with
  | zero =>
    intro n s hfuel hn h
    obtain rfl : n = size := by omega
    exact h
  | succ fuel ih =>
    intro n s hfuel hn h
    rw [writeTail]
    by_cases hrest : offset + size - (offset + n) > 0
    · rw [if_pos hrest]
      have hlt : offset + n < alignDown (offset + n) align + align := lt_alignDown_add hd
      have hle := alignDown_le (offset + n) align
      have hassert : decide (offset + n - offset < size) = true := decide_eq_true (by omega)
      dsimp only
      rw [hassert]
      generalize hk : min (alignDown (offset + n) align + align - (offset + n)) (offset + size - (offset + n)) = k
      have hnext := h.block hstorage hin (k := k) (by omega) (by omega) (by omega)
      have hdone := ih (n + k) _ (by omega) (by omega) hnext
      rw [show offset + n - offset = n by omega, show offset + n + k = offset + (n + k) by omega,
        show offset + size - (offset + n) - k = offset + size - (offset + (n + k)) by omega]
      simpa only [State.check, Bool.and_true, getRoundDownDifference, changeBlock] using hdone
    · rw [if_neg hrest]
      obtain rfl : n = size := by omega
      exact h

lemma writeHead_spec (hin : offset + size ≤ limit) {u c : ℕ}
    (hhead : 0 < u → offset + u = alignDown offset align + align) (hfits : u + c ≤ size)
    (hcore : Patched storage0 s.baseStorage (offset + u) c fun i => memory (buffer + (u + i)))
    (hmemory : s.memory = memory) (haligned : ∀ access ∈ s.accesses, AlignedAccess align limit access)
    (hasserts : s.asserts = true) :
    Writing align limit offset buffer memory storage0 (u + c) (writeHead align offset buffer (offset + u) s) := by
  rw [writeHead]
  by_cases hpos : offset < offset + u
  · have hblock := hhead (by omega)
    have hdown := alignDown_le offset align
    have hassert : decide (offset - alignDown offset align + (offset + u - offset) ≤ align) = true :=
      decide_eq_true (by omega)
    rw [if_pos hpos]
    dsimp only
    rw [hassert, Nat.add_sub_cancel_left]
    have hchange : Writing align limit offset buffer memory storage0 (u + c)
        (changeBlock align (alignDown offset align) (offset - alignDown offset align) buffer u s) := by
      refine ⟨?_, hmemory, aligned_changeBlock (dvd_alignDown _ _) (by omega) haligned, hasserts⟩
      rw [changeBlock_baseStorage (by omega), hmemory]
      exact hcore.prepend fun _ _ => rfl
    simpa only [State.check, Bool.and_true, changeBlock] using hchange
  · rw [if_neg hpos]
    obtain rfl : u = 0 := by omega
    refine ⟨?_, hmemory, haligned, hasserts⟩
    simpa using hcore

lemma write_plain (bufferAlignment : ℕ) (memory workBuf baseStorage : ℕ → Byte) (hd : 0 < align)
    (hstorage : align ∣ limit) (hwork : align ≤ workBufSize) (hbuffer : buffer ≠ 0)
    (hin : offset + size ≤ limit) :
    let s := write workBufSize align bufferAlignment offset buffer size (fresh memory workBuf baseStorage)
    s.baseStorage = overwrite baseStorage offset size (fun i => memory (buffer + i)) ∧ s.memory = memory ∧
    (∀ access ∈ s.accesses, AlignedAccess align limit access) ∧ s.asserts = true := by
  have hwriting : Writing align limit offset buffer memory baseStorage size
      (write workBufSize align bufferAlignment offset buffer size (fresh memory workBuf baseStorage)) := by
    have hchecks : ((fresh memory workBuf baseStorage).check (decide (workBufSize ≥ align))) =
        fresh memory workBuf baseStorage ∧
        (fresh memory workBuf baseStorage).check (decide (buffer ≠ 0)) = fresh memory workBuf baseStorage := by
      rw [decide_eq_true hwork, decide_eq_true hbuffer]
      exact ⟨rfl, rfl⟩
    rw [write, hchecks.1]
    by_cases hsize : size = 0
    · subst hsize
      exact writing_fresh _ _ _
    rw [if_neg hsize]
    dsimp only
    rw [hchecks.2]
    -- Without a core, the tail does everything.
    have hnone : ∀ e : Extents, e.coreSize = 0 → e.coveredOffset = offset →
        Writing align limit offset buffer memory baseStorage size
          (writeTail align offset buffer size size (e.coveredOffset + e.coreSize)
            (offset + size - (e.coveredOffset + e.coreSize))
            (writeHead align offset buffer e.coveredOffset (writeCore e (fresh memory workBuf baseStorage)))) := by
      intro e hzero hcovered
      rw [hzero, hcovered, writeCore, if_neg (by omega), writeHead, if_neg (by omega)]
      exact writeTail_spec hd hstorage hin size 0 _ (by omega) (by omega) (writing_fresh _ _ _)
    by_cases hmatching : matching align bufferAlignment offset buffer = true
    · rw [if_pos hmatching]
      generalize he : matchingExtents align offset buffer size = e
      rcases matchingExtents_spec hd e he.symm with
        ⟨hzero, hcovered⟩ | ⟨u, hu, hpos, hdvd, hcovered, hoffset, hbuffer, hfits, hhead⟩
      · exact hnone e hzero hcovered
      · have hcore : writeCore e (fresh memory workBuf baseStorage) =
            (fresh memory workBuf baseStorage).writeBase (buffer + u) e.coreSize (offset + u) := by
          rw [writeCore, if_pos hpos, hbuffer, hoffset]
        rw [hcore, hcovered, add_assoc]
        refine writeTail_spec hd hstorage hin size _ _ (by omega) hfits (writeHead_spec hin hhead hfits ?_ rfl ?_ rfl)
        · show overwrite baseStorage (offset + u) e.coreSize (fun i => memory (buffer + u + i)) = _
          simp only [add_assoc]
        · intro access hmem
          obtain rfl : access = (offset + u, e.coreSize) := by simpa [State.writeBase, fresh] using hmem
          exact ⟨hu, hdvd, by dsimp only; omega⟩
    · rw [if_neg hmatching]
      exact hnone _ rfl rfl
  exact ⟨hwriting.patched, hwriting.memory_eq, hwriting.aligned, hwriting.asserts⟩

end Access

/-- **Aligned access is plain access**: a read delivers the bytes of the storage to the buffer and changes nothing else, a write
changes these bytes of the storage to the buffer's and nothing else, every access of the storage is aligned and inside of it,
and every `ASSERT` holds. -/
theorem aligned_access_plain (workBufSize dataAlignment bufferAlignment offset buffer size storageSize : ℕ)
    (memory workBuf baseStorage : ℕ → Byte) (hd : 0 < dataAlignment) (hstorage : dataAlignment ∣ storageSize)
    (hwork : dataAlignment ≤ workBufSize) (hbuffer : buffer ≠ 0) (hin : offset + size ≤ storageSize) :
    (let s := read workBufSize dataAlignment bufferAlignment offset buffer size (fresh memory workBuf baseStorage)
     s.memory = overwrite memory buffer size (fun i => baseStorage (offset + i)) ∧ s.baseStorage = baseStorage ∧
     (∀ access ∈ s.accesses, AlignedAccess dataAlignment storageSize access) ∧ s.asserts = true) ∧
    (let s := write workBufSize dataAlignment bufferAlignment offset buffer size (fresh memory workBuf baseStorage)
     s.baseStorage = overwrite baseStorage offset size (fun i => memory (buffer + i)) ∧ s.memory = memory ∧
     (∀ access ∈ s.accesses, AlignedAccess dataAlignment storageSize access) ∧ s.asserts = true) :=
  ⟨read_plain bufferAlignment memory workBuf baseStorage hd hstorage hwork hbuffer hin,
    write_plain bufferAlignment memory workBuf baseStorage hd hstorage hwork hbuffer hin⟩

/-- An access that is not aligned at either end, in blocks of four bytes. -/
theorem aligned_access_plain_blocks :
    (let s := read 4 4 8 1 0x1003 10 (fresh (fun _ => 0#8) (fun _ => 0#8) (BitVec.ofNat 8))
     s.memory = overwrite (fun _ => 0#8) 0x1003 10 (fun i => BitVec.ofNat 8 (1 + i)) ∧ s.baseStorage = BitVec.ofNat 8 ∧
     (∀ access ∈ s.accesses, AlignedAccess 4 12 access) ∧ s.asserts = true) ∧
    (let s := write 4 4 8 1 0x1003 10 (fresh (fun _ => 0#8) (fun _ => 0#8) (BitVec.ofNat 8))
     s.baseStorage = overwrite (BitVec.ofNat 8) 1 10 (fun _ => 0#8) ∧ s.memory = (fun _ => 0#8) ∧
     (∀ access ∈ s.accesses, AlignedAccess 4 12 access) ∧ s.asserts = true) :=
  aligned_access_plain 4 4 8 1 0x1003 10 12 (fun _ => 0#8) (fun _ => 0#8) (BitVec.ofNat 8) (by decide) (by decide)
    (by decide) (by decide) (by decide)

end AlignmentMatchingStorageImpl

end Voltemu.FileSys
