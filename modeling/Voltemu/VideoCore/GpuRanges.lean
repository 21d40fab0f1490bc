import Voltemu.Lib.Segments
import Voltemu.VideoCore.GpuBlocks

/-!
# Queries about ranges of GPU virtual memory

`MaxContinuousRange`, `IsContinuousRange` and `GetSubmappedRange` of `video_core/memory_manager.cpp`.

* The functions that a `MemoryOperation` calls may stop it.  A query is `none` if it reads the entries behind their end.
* `rangeOperation_rule`: what every part of a query keeps holds at its end, or something holds since it was stopped.
* `submapped_spec`, `continuous_spec`, `maxContinuous_spec`: the three walkers against the segments of `destination`.
* `ranges_agree`: after every run they agree with the translations of the addresses in the ranges of the address space without a
  small page that is mapped in a big page that is reserved, and in no others.
-/

namespace Voltemu.VideoCore

open Voltemu.Core Overwrite Voltemu.Lib Option Nat

namespace MemoryManager

section Model

variable (m : MemoryManager)

/-- `GetEntry`, with `none` for a word behind the end of the entries. -/
def entryInside (isBigPage : Bool) (position : ℕ) : Option (BitVec 64) :=
  if position / m.usedPageSize isBigPage / 32 < 2 ^ (m.addressSpaceBits - m.usedPageBits isBigPage) / 32 then
    some (m.getEntry isBigPage position)
  else none

/-- The loop of `MemoryOperation`, with functions that stop it by returning `true`. -/
def breakOperationLoop {S : Type} (isBigPages : Bool)
    (mapped reserved unmapped : (pageIndex pageOffset copyAmount : ℕ) → S → Option (S × Bool)) :
    (fuel remainingSize pageIndex pageOffset currentAddress : ℕ) → S → Option S
  | 0, _, _, _, _, s => some s
  | fuel + 1, remainingSize, pageIndex, pageOffset, currentAddress, s =>
      if remainingSize = 0 then some s
      else
        let copyAmount := min (m.usedPageSize isBigPages - pageOffset) remainingSize
        (m.entryInside isBigPages currentAddress).bind fun entry =>
          let called :=
            if entry = EntryType.mapped.value then mapped pageIndex pageOffset copyAmount s
            else if entry = EntryType.reserved.value then reserved pageIndex pageOffset copyAmount s
            else unmapped pageIndex pageOffset copyAmount s
          called.bind fun (s, stop) =>
            if stop then some s
            else
              breakOperationLoop isBigPages mapped reserved unmapped fuel (remainingSize - copyAmount) (pageIndex + 1) 0
                (currentAddress + copyAmount) s

def breakOperation {S : Type} (isBigPages : Bool) (gpuSrcAddr size : ℕ)
    (mapped reserved unmapped : (pageIndex pageOffset copyAmount : ℕ) → S → Option (S × Bool)) (s : S) : Option S :=
  m.breakOperationLoop isBigPages mapped reserved unmapped size size (gpuSrcAddr / m.usedPageSize isBigPages)
    (gpuSrcAddr % m.usedPageSize isBigPages) gpuSrcAddr s

/-- The two levels of a query: what `check_short_pages` returns is read from the state. -/
def rangeOperation {S : Type} (stopped : S → Bool)
    (mappedNormal mappedBig other : (pageIndex pageOffset copyAmount : ℕ) → S → S × Bool) (gpuAddr size : ℕ) (s : S) : Option S :=
  let checkShortPages := fun (pageIndex offset copyAmount : ℕ) (s : S) =>
    let base := pageIndex * m.usedPageSize true + offset
    (m.breakOperation false base copyAmount (fun p o n s => some (mappedNormal p o n s)) (fun p o n s => some (other p o n s))
      (fun p o n s => some (other p o n s)) s).map fun s => (s, stopped s)
  m.breakOperation true gpuAddr size (fun p o n s => some (mappedBig p o n s)) (fun p o n s => some (other p o n s))
    checkShortPages s

/-- `old_page_addr`, `range_so_far` and `result` of `MaxContinuousRange` and `IsContinuousRange`, whose `result` is negated. -/
structure ContinuousState where
  oldPageAddr : Option ℕ
  rangeSoFar : ℕ
  result : Bool
deriving DecidableEq

/-- `short_check` and `big_check`, of which one in `MaxContinuousRange` stops without setting `result`. -/
def ContinuousState.check (setsResult : Bool) (devAddrBase copyAmount : ℕ) (s : ContinuousState) : ContinuousState × Bool :=
  if s.oldPageAddr.isSome ∧ s.oldPageAddr ≠ some devAddrBase then ({ s with result := s.result || setsResult }, true)
  else ({ s with oldPageAddr := some (devAddrBase + copyAmount), rangeSoFar := s.rangeSoFar + copyAmount }, false)

def ContinuousState.fail (s : ContinuousState) : ContinuousState × Bool := ({ s with result := true }, true)

/-- The walk of `MaxContinuousRange` and `IsContinuousRange`. -/
def continuousWalk (bigSetsResult : Bool) (gpuAddr size : ℕ) : Option ContinuousState :=
  m.rangeOperation (·.result)
    (fun pageIndex offset copyAmount s => s.check true (devAddrBase (m.pageTable pageIndex) + offset) copyAmount)
    (fun pageIndex offset copyAmount s => s.check bigSetsResult (devAddrBase (m.bigPageTableDev pageIndex) + offset) copyAmount)
    (fun _ _ _ s => s.fail) gpuAddr size ⟨none, 0, false⟩

def maxContinuousRange (gpuAddr size : ℕ) : Option ℕ := (m.continuousWalk false gpuAddr size).map (·.rangeSoFar)

def isContinuousRange (gpuAddr size : ℕ) : Option Bool := (m.continuousWalk true gpuAddr size).map fun s => !s.result

/-- `last_segment`, `old_page_addr` and `result` of `GetSubmappedRangeImpl<true>`. -/
structure SubmappedState where
  lastSegment : Option (ℕ × ℕ)
  oldPageAddr : Option ℕ
  result : List (ℕ × ℕ)
deriving DecidableEq

def SubmappedState.split (s : SubmappedState) : SubmappedState :=
  match s.lastSegment with
  | some segment => { s with result := s.result ++ [segment], lastSegment := none }
  | none => s

def SubmappedState.extendSize (devAddrBase newBaseAddr copyAmount : ℕ) (s : SubmappedState) : SubmappedState :=
  let s := if s.oldPageAddr.isSome ∧ s.oldPageAddr ≠ some devAddrBase then s.split else s
  let s := { s with oldPageAddr := some (devAddrBase + copyAmount) }
  match s.lastSegment with
  | none => { s with lastSegment := some (newBaseAddr, copyAmount) }
  | some (base, size) => { s with lastSegment := some (base, size + copyAmount) }

def getSubmappedRange (gpuAddr size : ℕ) : Option (List (ℕ × ℕ)) :=
  let extendSizeShort := fun (pageIndex offset copyAmount : ℕ) (s : SubmappedState) =>
    (s.extendSize (devAddrBase (m.pageTable pageIndex) + offset) (pageIndex * m.usedPageSize false + offset) copyAmount, false)
  let extendSizeBig := fun (pageIndex offset copyAmount : ℕ) (s : SubmappedState) =>
    (s.extendSize (devAddrBase (m.bigPageTableDev pageIndex) + offset) (pageIndex * m.usedPageSize true + offset) copyAmount, false)
  let split := fun (_ _ _ : ℕ) (s : SubmappedState) => (s.split, false)
  (m.rangeOperation (fun _ => false) extendSizeShort extendSizeBig split gpuAddr size (⟨none, none, []⟩ : SubmappedState)).map
    fun s => s.split.result

end Model

variable {m : MemoryManager} {addr size : ℕ}

/-! ## What a walk keeps -/

variable {a k n dev : ℕ}

lemma entryInside_eq (hg : m.Geometry) (b : Bool) (ha : a < m.addressSpaceSize) :
    m.entryInside b a = some (m.getEntry b a) := by
  have hpage := hg.page_lt (b := b) ha
  have hwords : 32 ∣ m.pages b := by
    have hbits : 5 ≤ m.addressSpaceBits - m.usedPageBits b := by
      have hbig := hg.big
      have hwords := hg.words
      have hpage := hg.page
      cases b with
      | false => simp only [usedPageBits, Bool.false_eq_true, if_false]; omega
      | true => simp only [usedPageBits, if_true]; omega
    exact (by decide : (32 : ℕ) = 2 ^ 5) ▸ pow_dvd_pow 2 hbits
  rw [entryInside, if_pos]
  exact div_lt_div_of_lt_of_dvd hwords hpage

lemma entryInside_outside (hg : m.Geometry) (b : Bool) (ha : m.addressSpaceSize ≤ a) : m.entryInside b a = none := by
  have hpage : m.pages b ≤ a / m.usedPageSize b := by
    rw [le_div_iff_mul_le (m.usedPageSize_pos b), hg.pages_mul]
    exact ha
  rw [entryInside, if_neg]
  exact not_lt.2 (Nat.div_le_div_right hpage)

/-- The part of a page that an operation is called for. -/
def breakPart {S : Type} (m : MemoryManager) (b : Bool) (mapped reserved unmapped : ℕ → ℕ → ℕ → S → Option (S × Bool)) (a n : ℕ) (s : S) :
    Option (S × Bool) :=
  let index := a / m.usedPageSize b
  let offset := a % m.usedPageSize b
  if m.getEntry b a = EntryType.mapped.value then mapped index offset n s
  else if m.getEntry b a = EntryType.reserved.value then reserved index offset n s
  else unmapped index offset n s

/-- **What every part of an operation keeps holds at its end**, unless a part stops it. -/
lemma breakOperation_rule {S : Type} (hg : m.Geometry) {b : Bool} {mapped reserved unmapped : ℕ → ℕ → ℕ → S → Option (S × Bool)}
    {s : S} (P : ℕ → S → Prop) (Q : S → Prop) (hin : addr + size ≤ m.addressSpaceSize) (hstart : P 0 s)
    (hstep : ∀ k n s, 0 < n → k + n ≤ size → (addr + k) % m.usedPageSize b + n ≤ m.usedPageSize b → P k s →
      ∃ s' stop, m.breakPart b mapped reserved unmapped (addr + k) n s = some (s', stop) ∧
        if stop then Q s' else P (k + n) s') :
    ∃ s', m.breakOperation b addr size mapped reserved unmapped s = some s' ∧ (P size s' ∨ Q s') := by
  have hpos := m.usedPageSize_pos b
  have hloop : ∀ fuel k index offset s, k ≤ size → size - k ≤ fuel →
      (k < size → index = (addr + k) / m.usedPageSize b ∧ offset = (addr + k) % m.usedPageSize b) → P k s →
      ∃ s', m.breakOperationLoop b mapped reserved unmapped fuel (size - k) index offset (addr + k) s = some s' ∧
        (P size s' ∨ Q s') := by
    intro fuel
    induction fuel with
    | zero =>
      intro k index offset s hk hfuel _ hs
      obtain rfl : k = size := by omega
      exact ⟨s, rfl, .inl hs⟩
    | succ fuel ih =>
      intro k index offset s hk hfuel hplace hs
      unfold breakOperationLoop
      by_cases hzero : size - k = 0
      · obtain rfl : k = size := by omega
        rw [if_pos hzero]
        exact ⟨s, rfl, .inl hs⟩
      · rw [if_neg hzero]
        obtain ⟨rfl, rfl⟩ := hplace (by omega)
        dsimp only
        have hmod := mod_lt (addr + k) hpos
        generalize hn : min (m.usedPageSize b - (addr + k) % m.usedPageSize b) (size - k) = n
        obtain ⟨s', stop, hpart, hkept⟩ := hstep k n s (by omega) (by omega) (by omega) hs
        rw [entryInside_eq hg b (by omega), bind_some]
        rw [breakPart] at hpart
        rw [hpart, bind_some]
        cases stop with
        | true => exact ⟨s', rfl, .inr (by simpa using hkept)⟩
        | false =>
          have hnext := ih (k + n) ((addr + k) / m.usedPageSize b + 1) 0 s' (by omega) (by omega) ?_ (by simpa using hkept)
          · rw [← Nat.sub_sub, ← Nat.add_assoc] at hnext
            exact hnext
          · -- the part ends with its page, or nothing is left
            intro hlt
            obtain ⟨hdiv, hmod⟩ := next_page hpos (addr + k)
            rw [show addr + (k + n) = addr + k + (m.usedPageSize b - (addr + k) % m.usedPageSize b) by omega]
            exact ⟨hdiv.symm, hmod.symm⟩
  have h := hloop size 0 _ _ s (zero_le _) (sub_le _ _) (fun _ => ⟨rfl, rfl⟩) hstart
  rwa [Nat.sub_zero, Nat.add_zero] at h

/-- An operation that is never stopped runs behind the end of the entries with its range. -/
lemma breakOperation_outside {S : Type} (hg : m.Geometry) {b : Bool} {mapped reserved unmapped : ℕ → ℕ → ℕ → S → Option (S × Bool)}
    (hgoes : ∀ a n s s' stop, m.breakPart b mapped reserved unmapped a n s = some (s', stop) → stop = false)
    (hout : m.addressSpaceSize < addr + size) (hsize : 0 < size) (s : S) :
    m.breakOperation b addr size mapped reserved unmapped s = none := by
  have hpos := m.usedPageSize_pos b
  have hloop : ∀ fuel remaining a s, 0 < remaining → remaining ≤ fuel → m.addressSpaceSize < a + remaining →
      m.breakOperationLoop b mapped reserved unmapped fuel remaining (a / m.usedPageSize b) (a % m.usedPageSize b) a s = none := by
    intro fuel
    induction fuel with
    | zero => intro remaining a s hremaining hfuel _; omega
    | succ fuel ih =>
      intro remaining a s hremaining hfuel hbehind
      unfold breakOperationLoop
      rw [if_neg (by omega)]
      dsimp only
      rcases lt_or_ge a m.addressSpaceSize with ha | ha
      · rw [entryInside_eq hg b ha, bind_some]
        have hmod := mod_lt a hpos
        have hdiv := div_add_mod a (m.usedPageSize b)
        -- the part ends with its page, and that is inside of the address space
        have hpage : m.usedPageSize b * (a / m.usedPageSize b + 1) ≤ m.addressSpaceSize := by
          rw [← hg.pages_mul b, mul_comm]
          exact mul_le_mul_right _ (hg.page_lt ha)
        rw [mul_add, mul_one] at hpage
        have hn : min (m.usedPageSize b - a % m.usedPageSize b) remaining = m.usedPageSize b - a % m.usedPageSize b := by omega
        rw [hn]
        cases hpart : m.breakPart b mapped reserved unmapped a (m.usedPageSize b - a % m.usedPageSize b) s with
        | none =>
          rw [breakPart] at hpart
          rw [hpart]
          rfl
        | some result =>
          obtain ⟨s', stop⟩ := result
          have hstop := hgoes _ _ _ _ _ hpart
          subst hstop
          rw [breakPart] at hpart
          rw [hpart, bind_some, if_neg Bool.false_ne_true]
          have hnext := ih (remaining - (m.usedPageSize b - a % m.usedPageSize b))
            (a + (m.usedPageSize b - a % m.usedPageSize b)) s' (by omega) (by omega) (by omega)
          rwa [(next_page hpos a).1, (next_page hpos a).2] at hnext
      · rw [entryInside_outside hg b ha]
        rfl
  exact hloop size size addr s hsize (le_refl _) hout

/-- **What every part of a query keeps holds at its end**, unless it is stopped.  The parts are those of big pages that are mapped,
those of small pages that are mapped in free big pages, and the rest. -/
lemma rangeOperation_rule {S : Type} (hg : m.Geometry) {stopped : S → Bool} {mappedNormal mappedBig other : ℕ → ℕ → ℕ → S → S × Bool}
    {s : S} (P : ℕ → S → Prop) (Q : S → Prop) (hin : addr + size ≤ m.addressSpaceSize) (hstart : P 0 s)
    (hgoes : ∀ k s, P k s → stopped s = false)
    (hsmall : ∀ k n p o s, 0 < n → k + n ≤ size → p * m.usedPageSize false + o = addr + k →
      (∀ i < n, m.destination (addr + k + i) = some (devAddrBase (m.pageTable p) + o + i)) → P k s →
      if (mappedNormal p o n s).2 then Q (mappedNormal p o n s).1 ∧ stopped (mappedNormal p o n s).1 = true
      else P (k + n) (mappedNormal p o n s).1)
    (hbig : ∀ k n p o s, 0 < n → k + n ≤ size → p * m.usedPageSize true + o = addr + k →
      (∀ i < n, m.destination (addr + k + i) = some (devAddrBase (m.bigPageTableDev p) + o + i)) → P k s →
      if (mappedBig p o n s).2 then Q (mappedBig p o n s).1 else P (k + n) (mappedBig p o n s).1)
    (hother : ∀ k n p o s, 0 < n → k + n ≤ size → (∀ i < n, m.destination (addr + k + i) = none) → P k s →
      if (other p o n s).2 then Q (other p o n s).1 ∧ stopped (other p o n s).1 = true else P (k + n) (other p o n s).1) :
    ∃ s', m.rangeOperation stopped mappedNormal mappedBig other addr size s = some s' ∧ (P size s' ∨ Q s') := by
  have hweak {c : Bool} {A B C : Prop} (h : if c = true then A ∧ B else C) : if c = true then A else C := by
    cases c with
    | true => exact (show A ∧ B from h).1
    | false => exact h
  refine breakOperation_rule hg P Q hin hstart ?_
  intro k n s hn hk hpage hs
  unfold breakPart
  dsimp only
  by_cases hmapped : m.getEntry true (addr + k) = EntryType.mapped.value
  · rw [if_pos hmapped]
    exact ⟨_, _, rfl, hbig k n _ _ s hn hk (div_add_mod' _ _) (fun i hi => destination_big hpage hi hmapped) hs⟩
  · rw [if_neg hmapped]
    by_cases hreserved : m.getEntry true (addr + k) = EntryType.reserved.value
    · rw [if_pos hreserved]
      exact ⟨_, _, rfl, hweak (hother k n _ _ s hn hk (fun i hi => destination_reserved hpage hi hmapped hreserved) hs)⟩
    · rw [if_neg hreserved, div_add_mod']
      have hinner : ∃ s', m.breakOperation false (addr + k) n (fun p o n s => some (mappedNormal p o n s))
          (fun p o n s => some (other p o n s)) (fun p o n s => some (other p o n s)) s = some s' ∧
          (P (k + n) s' ∨ (Q s' ∧ stopped s' = true)) := by
        refine breakOperation_rule hg (fun j => P (k + j)) (fun s => Q s ∧ stopped s = true) (by omega) hs ?_
        intro j c s hc hj hsmallPage hs
        have hdest := fun i hi => destination_free hpage hj hsmallPage hmapped hreserved (i := i) hi
        unfold breakPart
        dsimp only
        by_cases hentry : m.getEntry false (addr + k + j) = EntryType.mapped.value
        · rw [if_pos hentry]
          refine ⟨_, _, rfl, ?_⟩
          rw [← Nat.add_assoc]
          refine hsmall (k + j) c _ _ s hc (by omega) ?_ (fun i hi => ?_) hs
          · rw [div_add_mod', Nat.add_assoc]
          · rw [hdest i hi, if_pos hentry]
        · rw [if_neg hentry, ite_self]
          refine ⟨_, _, rfl, ?_⟩
          rw [← Nat.add_assoc]
          refine hother (k + j) c _ _ s hc (by omega) (fun i hi => ?_) hs
          rw [hdest i hi, if_neg hentry]
      obtain ⟨s', hresult, hkept⟩ := hinner
      rw [hresult]
      refine ⟨s', stopped s', rfl, ?_⟩
      rcases hkept with hkept | ⟨hQ, hstop⟩
      · rw [hgoes _ _ hkept]
        exact hkept
      · rw [hstop]
        exact hQ

/-! ## `GetSubmappedRange` -/

/-- **What `GetSubmappedRange` keeps**: its segments, the last one included, are those of the addresses so far.  The last segment is
still open if the last address is mapped, and then `old_page_addr` is the device address behind it. -/
structure Submapped (m : MemoryManager) (addr k : ℕ) (s : SubmappedState) : Prop where
  segmentation : IsSegmentation m.destination addr k (s.result ++ s.lastSegment.toList)
  opened : ∀ a n, s.lastSegment = some (a, n) →
    a + n = addr + k ∧ ∃ dev, m.destination (addr + k - 1) = some dev ∧ s.oldPageAddr = some (dev + 1)
  closed : s.lastSegment = none → 0 < k → m.destination (addr + k - 1) = none

variable {s : SubmappedState}

lemma Submapped.split (h : m.Submapped addr k s) (hn : 0 < n)
    (hnone : ∀ i < n, m.destination (addr + k + i) = none) : m.Submapped addr (k + n) s.split := by
  have hlast : m.destination (addr + (k + n) - 1) = none := by
    have := hnone (n - 1) (by omega)
    rwa [show addr + k + (n - 1) = addr + (k + n) - 1 by omega] at this
  have hsplit : s.split.lastSegment = none ∧ s.split.result = s.result ++ s.lastSegment.toList := by
    unfold SubmappedState.split
    cases hsegment : s.lastSegment with
    | none => simp [hsegment]
    | some segment => exact ⟨rfl, rfl⟩
  refine ⟨?_, fun a l hsome => ?_, fun _ _ => hlast⟩
  · rw [hsplit.1, hsplit.2, toList_none, List.append_nil]
    exact h.segmentation.hole hnone
  · rw [hsplit.1] at hsome
    cases hsome

lemma Submapped.extend (h : m.Submapped addr k s) (hn : 0 < n)
    (hmap : ∀ i < n, m.destination (addr + k + i) = some (dev + i)) :
    m.Submapped addr (k + n) (s.extendSize dev (addr + k) n) := by
  have hbehind : m.destination (addr + (k + n) - 1) = some (dev + n - 1) := by
    have := hmap (n - 1) (by omega)
    rwa [show addr + k + (n - 1) = addr + (k + n) - 1 by omega, show dev + (n - 1) = dev + n - 1 by omega] at this
  have hold : dev + n - 1 + 1 = dev + n := by omega
  cases hsegment : s.lastSegment with
  | none =>
    -- a new segment behind a hole
    have hextend : s.extendSize dev (addr + k) n =
        { s with oldPageAddr := some (dev + n), lastSegment := some (addr + k, n) } := by
      have hsplit : s.split = s := by rw [SubmappedState.split, hsegment]
      rw [SubmappedState.extendSize, hsplit, ite_self]
      simp [hsegment]
    have hsegmentation := h.segmentation
    rw [hsegment, toList_none, List.append_nil] at hsegmentation
    rw [hextend]
    refine ⟨hsegmentation.append hn hmap fun hk e he => ?_, fun a l hsome => ?_, fun hnone => by cases hnone⟩
    · rw [h.closed hsegment hk] at he
      cases he
    · cases hsome
      exact ⟨Nat.add_assoc _ _ _, _, hbehind, by rw [hold]⟩
  | some segment =>
    obtain ⟨a, l⟩ := segment
    obtain ⟨hend, e, he, holdAddr⟩ := h.opened a l hsegment
    have hsegmentation := h.segmentation
    rw [hsegment, toList_some] at hsegmentation
    by_cases hgoes : e + 1 = dev
    · -- the device addresses go on: the last segment grows
      have hextend : s.extendSize dev (addr + k) n =
          { s with oldPageAddr := some (dev + n), lastSegment := some (a, l + n) } := by
        simp [SubmappedState.extendSize, holdAddr, hgoes, hsegment]
      subst hgoes
      rw [hextend]
      refine ⟨hsegmentation.extend hend he hmap, fun a' l' hsome => ?_, fun hnone => by cases hnone⟩
      cases hsome
      exact ⟨by omega, _, hbehind, by rw [hold]⟩
    · have hextend : s.extendSize dev (addr + k) n = ⟨some (addr + k, n), some (dev + n), s.result ++ [(a, l)]⟩ := by
        simp [SubmappedState.extendSize, holdAddr, hgoes, hsegment, SubmappedState.split]
      rw [hextend]
      refine ⟨hsegmentation.append hn hmap fun _ e' he' => ?_, fun a' l' hsome => ?_, fun hnone => by cases hnone⟩
      · rw [he, Option.some.injEq] at he'
        omega
      · cases hsome
        exact ⟨Nat.add_assoc _ _ _, _, hbehind, by rw [hold]⟩

/-- **`GetSubmappedRange`** returns the segments of the addresses that the block operations find mapped. -/
lemma submapped_spec (hg : m.Geometry) (hin : addr + size ≤ m.addressSpaceSize) :
    ∃ segs, m.getSubmappedRange addr size = some segs ∧ IsSegmentation m.destination addr size segs := by
  have hwalk : ∃ s, m.rangeOperation (fun _ => false)
      (fun p o n s => (s.extendSize (devAddrBase (m.pageTable p) + o) (p * m.usedPageSize false + o) n, false))
      (fun p o n s => (s.extendSize (devAddrBase (m.bigPageTableDev p) + o) (p * m.usedPageSize true + o) n, false))
      (fun _ _ _ s => (s.split, false)) addr size (⟨none, none, []⟩ : SubmappedState) = some s ∧
      (m.Submapped addr size s ∨ False) := by
    refine rangeOperation_rule hg (m.Submapped addr) (fun _ => False) hin
      ⟨.nil _ _, fun _ _ h => (by cases h), fun _ h => absurd h (lt_irrefl 0)⟩ (fun _ _ _ => rfl) ?_ ?_ ?_
    · intro k n p o s hn _ haddr hdest h
      rw [haddr]
      exact h.extend hn hdest
    · intro k n p o s hn _ haddr hdest h
      rw [haddr]
      exact h.extend hn hdest
    · intro k n p o s hn _ hdest h
      exact h.split hn hdest
  obtain ⟨s, hs, hkept⟩ := hwalk
  have hsub := hkept.resolve_right id
  refine ⟨s.split.result, by rw [getSubmappedRange, hs]; rfl, ?_⟩
  have hsplit : s.split.result = s.result ++ s.lastSegment.toList := by
    unfold SubmappedState.split
    cases hsegment : s.lastSegment with
    | none => simp
    | some segment => rfl
  rw [hsplit]
  exact hsub.segmentation

/-! ## `MaxContinuousRange` and `IsContinuousRange` -/

/-- The addresses so far are mapped to device addresses that count up, and `old_page_addr` is the one behind them. -/
structure Continuous (m : MemoryManager) (addr k : ℕ) (s : ContinuousState) : Prop where
  goes : s.result = false
  range : s.rangeSoFar = k
  mapped : ∃ dev, (∀ i < k, m.destination (addr + i) = some (dev + i)) ∧ (0 < k → s.oldPageAddr = some (dev + k))
  start : k = 0 → s.oldPageAddr = none

/-- The walk was stopped where they do not go on. -/
structure Stopped (m : MemoryManager) (addr size : ℕ) (setsResult : Bool) (s : ContinuousState) : Prop where
  result : setsResult = true → s.result = true
  inside : s.rangeSoFar < size
  stops : ∃ dev, (∀ i < s.rangeSoFar, m.destination (addr + i) = some (dev + i)) ∧
    (0 < s.rangeSoFar → m.destination (addr + s.rangeSoFar) ≠ some (dev + s.rangeSoFar)) ∧
    (s.rangeSoFar = 0 → m.destination addr = none)

lemma Continuous.check {s : ContinuousState} (setsResult : Bool) (h : m.Continuous addr k s) (hn : 0 < n)
    (hk : k + n ≤ size) (hmap : ∀ i < n, m.destination (addr + k + i) = some (dev + i)) :
    if (s.check setsResult dev n).2 then m.Stopped addr size setsResult (s.check setsResult dev n).1
    else m.Continuous addr (k + n) (s.check setsResult dev n).1 := by
  obtain ⟨d, hd, hold⟩ := h.mapped
  have hfirst := hmap 0 hn
  rw [Nat.add_zero, Nat.add_zero] at hfirst
  unfold ContinuousState.check
  by_cases hbreak : s.oldPageAddr.isSome ∧ s.oldPageAddr ≠ some dev
  · rw [if_pos hbreak]
    have hpos : 0 < k := by
      by_contra h0
      rw [h.start (by omega)] at hbreak
      exact absurd hbreak.1 (by simp)
    refine ⟨fun hsets => by simp [hsets], ?_, d, ?_, fun _ => ?_, fun hzero => ?_⟩
    · dsimp only
      rw [h.range]
      omega
    · dsimp only
      rw [h.range]
      exact hd
    · dsimp only
      rw [h.range, hfirst, ← hold hpos]
      exact hbreak.2.symm
    · dsimp only at hzero
      rw [h.range] at hzero
      omega
  · rw [if_neg hbreak]
    refine ⟨h.goes, by dsimp only; rw [h.range], ?_, fun hzero => by omega⟩
    rcases Nat.eq_zero_or_pos k with rfl | hpos
    · refine ⟨dev, fun i hi => ?_, fun _ => by simp⟩
      have := hmap i (by omega)
      rwa [Nat.add_zero] at this
    · have hdev : dev = d + k := by
        rw [hold hpos] at hbreak
        simpa [eq_comm] using hbreak
      refine ⟨d, fun i hi => ?_, fun _ => by simp [hdev, Nat.add_assoc]⟩
      by_cases hik : i < k
      · exact hd i hik
      · have := hmap (i - k) (by omega)
        rw [show addr + k + (i - k) = addr + i by omega] at this
        rw [this, Option.some.injEq]
        omega

lemma Continuous.fail {s : ContinuousState} (setsResult : Bool) (h : m.Continuous addr k s) (hn : 0 < n)
    (hk : k + n ≤ size) (hnone : ∀ i < n, m.destination (addr + k + i) = none) : m.Stopped addr size setsResult s.fail.1 := by
  obtain ⟨d, hd, -⟩ := h.mapped
  have hfirst := hnone 0 hn
  rw [Nat.add_zero] at hfirst
  refine ⟨fun _ => rfl, ?_, d, ?_, fun _ => ?_, fun hzero => ?_⟩
  · show s.rangeSoFar < size
    rw [h.range]
    omega
  · show ∀ i < s.rangeSoFar, _
    rw [h.range]
    exact hd
  · show m.destination (addr + s.rangeSoFar) ≠ some (d + s.rangeSoFar)
    rw [h.range, hfirst]
    simp
  · have hzero : s.rangeSoFar = 0 := hzero
    rw [h.range] at hzero
    subst hzero
    exact hfirst

/-- **The walk of the two queries** goes on as long as the device addresses count up. -/
lemma continuousWalk_spec (hg : m.Geometry) (bigSetsResult : Bool) (hin : addr + size ≤ m.addressSpaceSize) :
    ∃ s, m.continuousWalk bigSetsResult addr size = some s ∧
      (m.Continuous addr size s ∨ m.Stopped addr size bigSetsResult s) := by
  have hweak {s : ContinuousState} (h : m.Stopped addr size true s) : m.Stopped addr size bigSetsResult s ∧ s.result = true :=
    ⟨⟨fun _ => h.result rfl, h.inside, h.stops⟩, h.result rfl⟩
  refine rangeOperation_rule hg (m.Continuous addr) (m.Stopped addr size bigSetsResult) hin
    ⟨rfl, rfl, ⟨0, fun i hi => absurd hi (not_lt_zero i), fun h => absurd h (lt_irrefl 0)⟩, fun _ => rfl⟩
    (fun _ _ h => h.goes) ?_ ?_ ?_
  · intro k n p o s hn hk _ hdest h
    have hcheck := h.check true hn hk hdest
    split at hcheck
    · next hstop =>
        rw [if_pos hstop]
        exact hweak hcheck
    · next hstop =>
        rw [if_neg hstop]
        exact hcheck
  · intro k n p o s hn hk _ hdest h
    exact h.check bigSetsResult hn hk hdest
  · intro k n p o s hn hk hdest h
    exact hweak (h.fail true hn hk hdest)

/-! ## Agreement -/

/-- **The queries about a range agree** with the page walk: `GetSubmappedRange` returns the segments of the addresses that are
translated, `IsContinuousRange` says whether they are one, and `MaxContinuousRange` is the length of the first one. -/
def RangesAgree (m : MemoryManager) (addr size : ℕ) : Prop :=
  ∃ segs, m.getSubmappedRange addr size = some segs ∧ IsSegmentation m.gpuToCpuAddress addr size segs ∧
    m.isContinuousRange addr size = some (decide (segs = [(addr, size)])) ∧
    m.maxContinuousRange addr size = some (firstLength addr segs)

section

variable (hg : m.Geometry) (hsize : 0 < size)
include hg hsize

/-- The two other queries, by the segments. -/
lemma continuousRange_spec (hin : addr + size ≤ m.addressSpaceSize) {segs : List (ℕ × ℕ)}
    (hsegs : IsSegmentation m.destination addr size segs) :
    m.isContinuousRange addr size = some (decide (segs = [(addr, size)])) ∧
      m.maxContinuousRange addr size = some (firstLength addr segs) := by
  constructor
  · obtain ⟨s, hs, hkept⟩ := continuousWalk_spec hg true hin
    rw [isContinuousRange, hs, map_some, Option.some.injEq]
    rcases hkept with hgoes | hstopped
    · obtain ⟨dev, hdev, -⟩ := hgoes.mapped
      rw [hgoes.goes, decide_eq_true ((hsegs.eq_singleton_iff hsize).2 ⟨dev, hdev⟩)]
      rfl
    · rw [hstopped.result rfl, decide_eq_false]
      · rfl
      · rw [hsegs.eq_singleton_iff hsize]
        rintro ⟨d, hd⟩
        obtain ⟨dev, hdev, hstops, hzero⟩ := hstopped.stops
        have hbehind := hd _ hstopped.inside
        rcases Nat.eq_zero_or_pos s.rangeSoFar with h0 | hpos
        · rw [h0, Nat.add_zero, hzero h0] at hbehind
          cases hbehind
        · have hfirst := hdev 0 hpos
          rw [hd 0 hsize, Option.some.injEq] at hfirst
          have hsame : d = dev := by omega
          rw [← hsame] at hstops
          exact hstops hpos hbehind
  · obtain ⟨s, hs, hkept⟩ := continuousWalk_spec hg false hin
    rw [maxContinuousRange, hs, map_some, Option.some.injEq]
    rcases hkept with hgoes | hstopped
    · obtain ⟨dev, hdev, -⟩ := hgoes.mapped
      rw [hgoes.range]
      exact (hsegs.firstLength_eq (le_refl _) hdev (fun _ h => absurd h (lt_irrefl _)) (by omega)).symm
    · obtain ⟨dev, hdev, hstops, hzero⟩ := hstopped.stops
      exact (hsegs.firstLength_eq (le_of_lt hstopped.inside) hdev (fun hpos _ => hstops hpos) hzero).symm

/-- A range that leaves the address space lets `GetSubmappedRange` read behind the entries. -/
lemma submapped_outside (hout : m.addressSpaceSize < addr + size) : m.getSubmappedRange addr size = none := by
  rw [getSubmappedRange, rangeOperation, breakOperation_outside hg _ hout hsize, map_none]
  intro a n s s' stop hpart
  unfold breakPart at hpart
  dsimp only at hpart
  by_cases hmapped : m.getEntry true a = EntryType.mapped.value
  · rw [if_pos hmapped] at hpart
    cases hpart
    rfl
  · rw [if_neg hmapped] at hpart
    by_cases hreserved : m.getEntry true a = EntryType.reserved.value
    · rw [if_pos hreserved] at hpart
      cases hpart
      rfl
    · rw [if_neg hreserved, map_eq_some_iff] at hpart
      obtain ⟨s'', -, hresult⟩ := hpart
      cases hresult
      rfl

lemma rangesAgree_iff :
    m.RangesAgree addr size ↔ addr + size ≤ m.addressSpaceSize ∧ ∀ i < size, ¬ m.Conflict (addr + i) := by
  constructor
  · rintro ⟨segs, hsub, hsegs, -, -⟩
    have hin : addr + size ≤ m.addressSpaceSize := by
      by_contra hout
      rw [submapped_outside hg hsize (by omega)] at hsub
      cases hsub
    refine ⟨hin, fun i hi hconflict => ?_⟩
    obtain ⟨segs', hsub', hsegs'⟩ := submapped_spec hg hin
    obtain rfl : segs = segs' := Option.some.inj (hsub.symm.trans hsub')
    obtain ⟨hnone, hsome⟩ := destination_conflict (by omega) hconflict
    have hcovered := (hsegs'.covers (addr + i)).1 ((hsegs.covers (addr + i)).2 ⟨by omega, hsome⟩)
    rw [hnone] at hcovered
    exact absurd hcovered.2 (by simp)
  · rintro ⟨hin, happart⟩
    obtain ⟨segs, hsub, hsegs⟩ := submapped_spec hg hin
    obtain ⟨hcontinuous, hmax⟩ := continuousRange_spec hg hsize hin hsegs
    refine ⟨segs, hsub, hsegs.congr fun a hlow hhigh => ?_, hcontinuous, hmax⟩
    have := happart (a - addr) (by omega)
    rw [Nat.add_sub_cancel' hlow] at this
    exact destination_eq hg (by omega) this

end

end MemoryManager

/-! ## Runs -/

/-- The ranges of an operation are aligned to the page size that it uses. -/
def GpuOp.Aligned (m : MemoryManager) : GpuOp → Prop
  | map gpuAddr _ size isBigPages => InPages m isBigPages gpuAddr size
  | mapSparse gpuAddr size isBigPages => InPages m isBigPages gpuAddr size
  | unmap gpuAddr size => InPages m true gpuAddr size

namespace MemoryManager

variable {m' : MemoryManager} {memory : DeviceMemoryManager}

variable {op : GpuOp}

/-- **What an aligned operation does**: nothing, or it writes a range of small pages, or of big pages, or both.  Of what it writes only
a `Map` is mapped, and only a `MapSparse` reserved. -/
lemma aligned_cases (hg : m.Geometry) (haligned : op.Aligned m) (hop : op.apply memory m = some m') :
    m' = m ∨
    (∃ e p n dev, m.SmallWritten m' e p n dev ∧
      (e = .mapped → op = .map (p * m.usedPageSize false) dev (n * m.usedPageSize false) false)) ∨
    (∃ e p n dev, m.BigWritten m' memory e p n dev ∧
      (e = .mapped → op = .map (p * m.usedPageSize true) dev (n * m.usedPageSize true) true) ∧
      (e = .reserved → op = .mapSparse (p * m.usedPageSize true) (n * m.usedPageSize true) true)) ∨
    ∃ m1 p n p' n', m.BigWritten m1 memory .free p n 0 ∧ m1.SmallWritten m' .free p' n' 0 := by
  cases op with
  | map g dev s b =>
    cases b with
    | false =>
      obtain ⟨p, n, rfl, rfl, hw⟩ := pageTableOp_spec hg dev haligned hop
      exact .inr (.inl ⟨_, p, n, dev, hw, fun _ => rfl⟩)
    | true =>
      obtain ⟨p, n, rfl, hn, hw⟩ := bigPageTableOp_range memory hg .mapped dev haligned
      obtain rfl : bigPageTableOp memory .mapped (m.iterations true s) _ dev m = m' := some_inj.1 hop
      have hop : GpuOp.map (p * m.usedPageSize true) dev s true =
          .map (p * m.usedPageSize true) dev (n * m.usedPageSize true) true :=
        congrArg (GpuOp.map (p * m.usedPageSize true) dev · true) hn
      exact .inr (.inr (.inl ⟨.mapped, p, n, dev, hw, ⟨fun _ => hop, nofun⟩⟩))
  | mapSparse g s b =>
    cases b with
    | false =>
      change m.pageTableOp .reserved g 0 s = some m' at hop
      obtain ⟨p, n, rfl, rfl, hw⟩ := pageTableOp_spec hg 0 haligned hop
      exact .inr (.inl ⟨_, p, n, 0, hw, fun h => nomatch h⟩)
    | true =>
      obtain ⟨p, n, rfl, hn, hw⟩ := bigPageTableOp_range memory hg .reserved 0 haligned
      obtain rfl : bigPageTableOp memory .reserved (m.iterations true s) _ 0 m = m' := some_inj.1 hop
      have hop : GpuOp.mapSparse (p * m.usedPageSize true) s true =
          .mapSparse (p * m.usedPageSize true) (n * m.usedPageSize true) true :=
        congrArg (GpuOp.mapSparse (p * m.usedPageSize true) · true) hn
      exact .inr (.inr (.inl ⟨.reserved, p, n, 0, hw, ⟨nofun, fun _ => hop⟩⟩))
  | unmap g s =>
    change m.unmap memory g s = some m' at hop
    unfold unmap at hop
    by_cases hzero : s = 0
    · rw [if_pos hzero, some_inj] at hop
      exact .inl hop.symm
    · rw [if_neg hzero] at hop
      obtain ⟨p, n, -, -, hw⟩ := bigPageTableOp_range memory hg .free 0 haligned
      have hin : GpuOp.InPages (bigPageTableOp memory .free (m.iterations true s) g 0 m) false g s := by
        have hsmall := InPages.small hg haligned
        rw [hw.rest]
        exact hsmall
      obtain ⟨p', n', -, -, hw'⟩ := pageTableOp_spec (hw.geometry hg) 0 hin hop
      exact .inr (.inr (.inr ⟨_, p, n, p', n', hw, hw'⟩))

/-- An aligned operation keeps the page sizes of the address space, and the two kinds of pages apart if it is one of those that do. -/
lemma aligned_step (hg : m.Geometry) (haligned : op.Aligned m) (hop : op.apply memory m = some m') :
    m'.Geometry ∧ (op.KeepsApart m → m.Apart → m'.Apart) := by
  rcases aligned_cases hg haligned hop with
    rfl | ⟨e, p, n, dev, hw, hmap⟩ | ⟨e, p, n, dev, hw, -, hsparse⟩ | ⟨m1, p, n, p', n', hw, hw'⟩
  · exact ⟨hg, fun _ ha => ha⟩
  · refine ⟨hw.geometry hg, fun hkeeps ha => hw.apart ha fun he => ?_⟩
    rw [hmap he] at hkeeps
    exact hkeeps
  · refine ⟨hw.geometry hg, fun hkeeps ha => hw.apart ha fun he => ?_⟩
    rw [hsparse he] at hkeeps
    exact hkeeps
  · exact ⟨hw'.geometry (hw.geometry hg), fun _ ha => hw'.apart (hw.apart ha fun h => nomatch h) fun h => nomatch h⟩

lemma aligned_apart {start : MemoryManager} (hg : start.Geometry) (ha : start.Apart)
    (h : Reached memory (fun m op => op.Aligned m ∧ op.KeepsApart m) start m) : m.Geometry ∧ m.Apart := by
  induction h with
  | start => exact ⟨hg, ha⟩
  | step _ hok hop ih =>
    obtain ⟨hgeometry, hapart⟩ := aligned_step ih.1 hok.1 hop
    exact ⟨hgeometry, hapart hok.2 ih.2⟩

/-- No operation changes the bits of the page sizes, whatever its range is. -/
def SameBits (m m' : MemoryManager) : Prop :=
  m'.addressSpaceBits = m.addressSpaceBits ∧ m'.pageBits = m.pageBits ∧ m'.bigPageBits = m.bigPageBits

lemma SameBits.trans {m1 m2 : MemoryManager} (h : SameBits m m1) (h' : SameBits m1 m2) : SameBits m m2 :=
  ⟨h'.1.trans h.1, h'.2.1.trans h.2.1, h'.2.2.trans h.2.2⟩

lemma sameBits_pageOp (m : MemoryManager) (e : EntryType) (g dev : ℕ) : SameBits m (m.pageOp e g dev) := by
  unfold pageOp setEntry
  dsimp only
  rw [if_neg Bool.false_ne_true]
  split_ifs <;> exact ⟨rfl, rfl, rfl⟩

lemma sameBits_bigPageOp (m : MemoryManager) (memory : DeviceMemoryManager) (e : EntryType) (g dev : ℕ) :
    SameBits m (m.bigPageOp memory e g dev) := by
  unfold bigPageOp setEntry setBigPageContinuous
  dsimp only
  rw [if_pos rfl]
  split_ifs <;> exact ⟨rfl, rfl, rfl⟩

lemma sameBits_pageTableOp {e : EntryType} {g dev s : ℕ} (hop : m.pageTableOp e g dev s = some m') : SameBits m m' := by
  have hloop : ∀ (n g dev : ℕ) (m : MemoryManager), SameBits m (pageTableOpLoop e n g dev m) := by
    intro n
    induction n with
    | zero => intro g dev m; exact ⟨rfl, rfl, rfl⟩
    | succ n ih => intro g dev m; exact (sameBits_pageOp m e g dev).trans (ih _ _ _)
  unfold pageTableOp at hop
  by_cases hrange : e = .mapped ∧ m.reserveRange g s = false
  · rw [if_pos hrange] at hop
    cases hop
  · rw [if_neg hrange, some_inj] at hop
    rw [← hop]
    exact hloop _ _ _ _

lemma sameBits_bigPageTableOp (memory : DeviceMemoryManager) (e : EntryType) (n g dev : ℕ) (m : MemoryManager) :
    SameBits m (bigPageTableOp memory e n g dev m) := by
  induction n generalizing g dev m with
  | zero => exact ⟨rfl, rfl, rfl⟩
  | succ n ih => exact (sameBits_bigPageOp m memory e g dev).trans (ih _ _ _)

lemma sameBits_apply (hop : op.apply memory m = some m') : SameBits m m' := by
  cases op with
  | map g dev s b =>
    cases b with
    | false => exact sameBits_pageTableOp hop
    | true =>
      rw [← some_inj.1 hop]
      exact sameBits_bigPageTableOp memory .mapped _ g dev m
  | mapSparse g s b =>
    cases b with
    | false => exact sameBits_pageTableOp (e := .reserved) hop
    | true =>
      rw [← some_inj.1 hop]
      exact sameBits_bigPageTableOp memory .reserved _ g 0 m
  | unmap g s =>
    change m.unmap memory g s = some m' at hop
    unfold unmap at hop
    by_cases hzero : s = 0
    · rw [if_pos hzero, some_inj] at hop
      subst hop
      exact ⟨rfl, rfl, rfl⟩
    · rw [if_neg hzero] at hop
      exact (sameBits_bigPageTableOp memory .free _ g 0 m).trans (sameBits_pageTableOp hop)

lemma SameBits.geometry (h : SameBits m m') (hg : m.Geometry) : m'.Geometry := by
  obtain ⟨hspace, hpage, hbig⟩ := h
  refine ⟨?_, ?_, ?_, ?_, ?_⟩
  · rw [hpage, hg.page]
  · rw [hbig]
    exact hg.big
  · rw [hbig, hspace]
    exact hg.words
  · rw [hspace]
    exact hg.levels
  · rw [hspace]
    exact hg.address

/-- **The queries about ranges agree**, after every run of operations, on the ranges of the address space without a small page that is
mapped in a big page that is reserved, and on no others.  In runs that make no such page they agree on every range of the address
space. -/
theorem ranges_agree {addressSpaceBits pageBits bigPageBits : ℕ} (hg : (new addressSpaceBits pageBits bigPageBits).Geometry)
    (memory : DeviceMemoryManager) :
    (∀ m, Reached memory (fun _ _ => True) (new addressSpaceBits pageBits bigPageBits) m → ∀ addr size, 0 < size →
      (m.RangesAgree addr size ↔ addr + size ≤ m.addressSpaceSize ∧ ∀ i < size, ¬ m.Conflict (addr + i))) ∧
    ∀ m, Reached memory (fun m op => op.Aligned m ∧ op.KeepsApart m) (new addressSpaceBits pageBits bigPageBits) m →
      ∀ addr size, 0 < size → (m.RangesAgree addr size ↔ addr + size ≤ m.addressSpaceSize) := by
  refine ⟨?_, ?_⟩
  · intro m hreached addr size hsize
    have hgeometry : m.Geometry := by
      induction hreached with
      | start => exact hg
      | step _ _ hop ih => exact (sameBits_apply hop).geometry ih
    exact rangesAgree_iff hgeometry hsize
  · intro m hreached addr size hsize
    obtain ⟨hgeometry, hapart⟩ := aligned_apart hg (sound_new memory hg).2 hreached
    rw [rangesAgree_iff hgeometry hsize]
    exact ⟨fun h => h.1, fun hin => ⟨hin, fun i hi => hapart _ (by omega)⟩⟩

theorem ranges_agree_smallMapped : (new 40 12 16).Geometry ∧
    Reached firstPage (fun m op => op.Aligned m ∧ op.KeepsApart m) (new 40 12 16) smallMapped ∧
    smallMapped.RangesAgree 0 0x2000 := by
  have hreached : Reached firstPage (fun m op => op.Aligned m ∧ op.KeepsApart m) (new 40 12 16) smallMapped := by
    have haligned : (GpuOp.map 0 0 4096 false).Aligned (new 40 12 16) := map_valid.1
    have hkeeps : (GpuOp.map 0 0 4096 false).KeepsApart (new 40 12 16) := fun a _ _ => by
      rw [getEntry_new]
      decide
    exact .step .start ⟨haligned, hkeeps⟩ rfl
  exact ⟨geometry_of_gpu, hreached,
    ((ranges_agree geometry_of_gpu firstPage).2 smallMapped hreached 0 0x2000 (by decide)).2 (by decide)⟩

/-- In a big page that is reserved, `GetSubmappedRange` misses a small page that is translated. -/
theorem ranges_miss_small_page :
    ∃ m, Reached firstPage (fun _ _ => True) (new 40 12 16) m ∧ 0 + 1 ≤ m.addressSpaceSize ∧ ¬ m.RangesAgree 0 1 := by
  have hmap : (GpuOp.map 0 0 4096 false).apply firstPage (new 40 12 16) = some smallMapped := rfl
  have hsparse : (GpuOp.mapSparse 0 0x10000 true).apply firstPage smallMapped = some bigReserved := rfl
  have hreached : Reached firstPage (fun _ _ => True) (new 40 12 16) bigReserved :=
    .step (.step .start trivial hmap) trivial hsparse
  refine ⟨bigReserved, hreached, by decide, fun hagree => ?_⟩
  have hgeometry : bigReserved.Geometry := ⟨rfl, by decide, by decide, by decide, by decide⟩
  exact ((rangesAgree_iff hgeometry one_pos).1 hagree).2 0 one_pos ⟨by decide, by decide⟩

end MemoryManager

end Voltemu.VideoCore
