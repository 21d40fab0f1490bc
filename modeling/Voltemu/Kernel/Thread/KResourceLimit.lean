import Mathlib.Algebra.Order.BigOperators.Group.List
import Mathlib.Data.BitVec

/-!
# `KResourceLimit`

`kernel/k_resource_limit.cpp`: a step is a section under `m_lock`, so a call of `Reserve` that waits is in several steps.
The timer and the end of a wait are left open: any test may have any result, and a wait may end at any time.

* `Step` — any number of calls; what is released has been reserved, and no value is released before its hint.
* `Inv` — what is counted is what is held.
* `resourceLimit_accounting` — in every run the four values of a resource are in order and no addition overflows.
-/

namespace Voltemu.Kernel

open Function

inductive LimitableResource
  | PhysicalMemoryMax
  | ThreadCountMax
  | EventCountMax
  | TransferMemoryCountMax
  | SessionCountMax
deriving DecidableEq

def IsS64 (v : ℤ) : Prop := -2 ^ 63 ≤ v ∧ v < 2 ^ 63

instance : DecidablePred IsS64 := fun v => inferInstanceAs (Decidable (-2 ^ 63 ≤ v ∧ v < 2 ^ 63))

/-- The result of an `s64` operation, with `none` for an overflow. -/
def s64 (v : ℤ) : Option ℤ := if IsS64 v then some v else none

def wrappingAdd (a b : ℤ) : ℤ := (a + b).bmod (2 ^ 64)

structure KResourceLimit where
  limitValues : LimitableResource → ℤ
  currentValues : LimitableResource → ℤ
  currentHints : LimitableResource → ℤ
  peakValues : LimitableResource → ℤ

/-- How a section of `Reserve` ends. -/
inductive Ending
  | reserved
  | failed
  | waits
deriving DecidableEq

namespace KResourceLimit

def initial : KResourceLimit := ⟨0, 0, 0, 0⟩

variable (l : KResourceLimit) (which : LimitableResource)

/-- `SetLimitValue`, with whether it succeeds. -/
def setLimitValue (value : ℤ) : Bool × KResourceLimit :=
  if l.currentValues which ≤ value then
    (true, { l with
      limitValues := update l.limitValues which value
      peakValues := update l.peakValues which (l.currentValues which) })
  else (false, l)

/-- A round of the loop of `Reserve`.  The flag is `timeout < 0 || GetTick() < timeout`. -/
def reserveRound (value : ℤ) (inTime : Bool) : Option (Ending × KResourceLimit) := do
  if wrappingAdd (l.currentValues which) value ≤ l.currentValues which then
    return (.failed, l)
  let current ← s64 (l.currentValues which + value)
  let hint ← s64 (l.currentHints which + value)
  if current ≤ l.limitValues which then
    return (.reserved, { l with
      currentValues := update l.currentValues which current
      currentHints := update l.currentHints which hint
      peakValues := update l.peakValues which (max (l.peakValues which) current) })
  return (if hint ≤ l.limitValues which ∧ inTime then .waits else .failed, l)

/-- `Reserve` up to its first wait. -/
def reserve (value : ℤ) (inTime : Bool) : Option (Ending × KResourceLimit) :=
  if l.limitValues which ≤ l.currentHints which then some (.failed, l) else l.reserveRound which value inTime

def release (value hint : ℤ) : Option KResourceLimit := do
  let current ← s64 (l.currentValues which - value)
  let hints ← s64 (l.currentHints which - hint)
  return { l with
    currentValues := update l.currentValues which current
    currentHints := update l.currentHints which hints }

def exit : Option KResourceLimit := l.release .ThreadCountMax 0 1

def postDestroy (resourceLimitReleaseHint : Bool) : Option KResourceLimit :=
  l.release .ThreadCountMax 1 (if resourceLimitReleaseHint then 0 else 1)

end KResourceLimit

/-! ## Runs -/

/-- What a successful `Reserve` obtained and has not been released. -/
structure Holding where
  which : LimitableResource
  value : ℤ
  hint : ℤ
deriving DecidableEq

namespace Holding

/-- The rest behind a `Release`. -/
def less (h : Holding) (value hint : ℤ) : Holding := ⟨h.which, h.value - value, h.hint - hint⟩

def Valid (h : Holding) : Prop := 0 ≤ h.hint ∧ h.hint ≤ h.value

end Holding

/-- The resource limit, the calls of `Reserve` that wait, and what is held. -/
structure LimitState where
  limit : KResourceLimit
  waiting : List (LimitableResource × ℤ)
  held : List Holding

namespace LimitState

def initial : LimitState := ⟨.initial, [], []⟩

def ends (s : LimitState) (which : LimitableResource) (value : ℤ) : Ending × KResourceLimit → LimitState
  | (.reserved, l) => { s with limit := l, held := ⟨which, value, value⟩ :: s.held }
  | (.failed, l) => { s with limit := l }
  | (.waits, l) => { s with limit := l, waiting := (which, value) :: s.waiting }

def released (s : LimitState) (h : Holding) (value hint : ℤ) (l : KResourceLimit) : LimitState :=
  { s with limit := l, held := h.less value hint :: s.held.erase h }

inductive Step (s : LimitState) : LimitState → Prop
  | reserve {which value inTime r} : IsS64 value → s.limit.reserve which value inTime = some r → Step s (s.ends which value r)
  /-- A wait ends, and the call tests again. -/
  | resume {which value inTime r} : (which, value) ∈ s.waiting → s.limit.reserveRound which value inTime = some r →
      Step s ({ s with waiting := s.waiting.erase (which, value) }.ends which value r)
  | setLimitValue {which value} : IsS64 value → Step s { s with limit := (s.limit.setLimitValue which value).2 }
  | release {h value hint l} : h ∈ s.held → 0 ≤ value → 0 ≤ hint → (h.less value hint).Valid →
      s.limit.release h.which value hint = some l → Step s (s.released h value hint l)
  /-- One `Release` may be for several reservations. -/
  | join {h h'} : h ∈ s.held → h' ∈ s.held.erase h → h'.which = h.which →
      Step s { s with held := ⟨h.which, h.value + h'.value, h.hint + h'.hint⟩ :: (s.held.erase h).erase h' }
  | exit {l} : ⟨.ThreadCountMax, 1, 1⟩ ∈ s.held → s.limit.exit = some l →
      Step s (s.released ⟨.ThreadCountMax, 1, 1⟩ 0 1 l)
  | postDestroy {releaseHint l} : ⟨.ThreadCountMax, 1, if releaseHint then 0 else 1⟩ ∈ s.held → s.limit.postDestroy releaseHint = some l →
      Step s (s.released ⟨.ThreadCountMax, 1, if releaseHint then 0 else 1⟩ 1 (if releaseHint then 0 else 1) l)

/-! ## The invariant -/

def total (f : Holding → ℤ) (held : List Holding) (which : LimitableResource) : ℤ :=
  (held.map fun h => if h.which = which then f h else 0).sum

structure Inv (s : LimitState) : Prop where
  current : s.limit.currentValues = total Holding.value s.held
  hints : s.limit.currentHints = total Holding.hint s.held
  held : ∀ h ∈ s.held, h.Valid
  limit : ∀ which, s.limit.currentValues which ≤ s.limit.limitValues which
  limit_lt : ∀ which, s.limit.limitValues which < 2 ^ 63
  peak : ∀ which, s.limit.currentValues which ≤ s.limit.peakValues which
  waiting : ∀ call ∈ s.waiting, IsS64 call.2

variable {f : Holding → ℤ} {held : List Holding} {h : Holding} {which : LimitableResource} {value hint : ℤ} {inTime : Bool} {s s' : LimitState}

lemma total_cons : total f (h :: held) = update (total f held) h.which (total f held h.which + f h) := by
  funext which
  rw [total, List.map_cons, List.sum_cons]
  by_cases hwhich : which = h.which
  · rw [hwhich, update_self, if_pos rfl, add_comm, total]
  · rw [update_of_ne hwhich, if_neg (Ne.symm hwhich), zero_add, total]

lemma total_erase (hh : h ∈ held) : total f held = update (total f (held.erase h)) h.which (total f (held.erase h) h.which + f h) := by
  rw [← total_cons]
  funext which
  exact ((List.perm_cons_erase hh).map _).sum_eq

lemma total_nonneg (hheld : ∀ h ∈ held, 0 ≤ f h) : 0 ≤ total f held which := by
  refine List.sum_nonneg fun v hv => ?_
  obtain ⟨h, hh, rfl⟩ := List.mem_map.1 hv
  split
  · exact hheld h hh
  · exact le_rfl

lemma total_le {g : Holding → ℤ} (hheld : ∀ h ∈ held, f h ≤ g h) : total f held which ≤ total g held which := by
  refine List.sum_le_sum fun h hh => ?_
  split
  · exact hheld h hh
  · exact le_rfl

lemma Inv.order (hs : s.Inv) (which : LimitableResource) :
    0 ≤ s.limit.currentHints which ∧ s.limit.currentHints which ≤ s.limit.currentValues which := by
  rw [hs.current, hs.hints]
  exact ⟨total_nonneg fun h hh => (hs.held h hh).1, total_le fun h hh => (hs.held h hh).2⟩

lemma s64_eq_some {v : ℤ} (hlow : -2 ^ 63 ≤ v) (hhigh : v < 2 ^ 63) : s64 v = some v := if_pos ⟨hlow, hhigh⟩

/-- The test of the loop is for a value that is not positive, or an overflow. -/
lemma wrappingAdd_le_iff {a b : ℤ} (hlow : 0 ≤ a) (hhigh : a < 2 ^ 63) (hb : IsS64 b) :
    wrappingAdd a b ≤ a ↔ b ≤ 0 ∨ 2 ^ 63 ≤ a + b := by
  obtain ⟨hlow', hhigh'⟩ := hb
  rw [wrappingAdd, Int.bmod]
  split <;> omega

lemma Inv.reserveRound (hs : s.Inv) (which : LimitableResource) (hvalue : IsS64 value) (inTime : Bool) :
    ∃ e l, s.limit.reserveRound which value inTime = some (e, l) ∧ (e ≠ .reserved ∧ l = s.limit ∨
      e = .reserved ∧ 0 < value ∧ s.limit.currentValues which + value ≤ s.limit.limitValues which ∧ l = { s.limit with
        currentValues := update s.limit.currentValues which (s.limit.currentValues which + value)
        currentHints := update s.limit.currentHints which (s.limit.currentHints which + value)
        peakValues := update s.limit.peakValues which (max (s.limit.peakValues which) (s.limit.currentValues which + value)) }) := by
  obtain ⟨hhint, hle⟩ := hs.order which
  have hlt := (hs.limit which).trans_lt (hs.limit_lt which)
  have hwrap := wrappingAdd_le_iff (hhint.trans hle) hlt hvalue
  rw [KResourceLimit.reserveRound]
  by_cases hstop : wrappingAdd (s.limit.currentValues which) value ≤ s.limit.currentValues which
  · rw [if_pos hstop]
    exact ⟨_, _, rfl, .inl ⟨by decide, rfl⟩⟩
  · rw [hwrap] at hstop
    rw [if_neg (hwrap.not.2 hstop), s64_eq_some (by omega) (by omega), s64_eq_some (by omega) (by omega)]
    by_cases hfits : s.limit.currentValues which + value ≤ s.limit.limitValues which
    · simp only [Option.bind_eq_bind, Option.bind_some, if_pos hfits]
      exact ⟨_, _, rfl, .inr ⟨rfl, by omega, hfits, rfl⟩⟩
    · simp only [Option.bind_eq_bind, Option.bind_some, if_neg hfits]
      refine ⟨_, _, rfl, .inl ⟨?_, rfl⟩⟩
      split <;> decide

lemma reserve_eq (l : KResourceLimit) (which : LimitableResource) (value : ℤ) (inTime : Bool) :
    l.reserve which value inTime = some (.failed, l) ∨ l.reserve which value inTime = l.reserveRound which value inTime := by
  rw [KResourceLimit.reserve]
  split
  · exact .inl rfl
  · exact .inr rfl

/-- What is released is a part of what is counted. -/
lemma Inv.release (hs : s.Inv) (hh : h ∈ s.held) (hvalue : 0 ≤ value) (hhint : 0 ≤ hint) (hrest : (h.less value hint).Valid) :
    s.limit.release h.which value hint = some { s.limit with
      currentValues := update s.limit.currentValues h.which (s.limit.currentValues h.which - value)
      currentHints := update s.limit.currentHints h.which (s.limit.currentHints h.which - hint) } := by
  have horder := hs.order h.which
  have hlt := (hs.limit h.which).trans_lt (hs.limit_lt h.which)
  have hothers : ∀ h' ∈ s.held.erase h, h'.Valid := fun h' hh' => hs.held h' (List.mem_of_mem_erase hh')
  have hcurrent : h.value ≤ s.limit.currentValues h.which := by
    rw [hs.current, total_erase hh, update_self]
    exact le_add_of_nonneg_left (total_nonneg fun h' hh' => (hothers h' hh').1.trans (hothers h' hh').2)
  have hhints : h.hint ≤ s.limit.currentHints h.which := by
    rw [hs.hints, total_erase hh, update_self]
    exact le_add_of_nonneg_left (total_nonneg fun h' hh' => (hothers h' hh').1)
  obtain ⟨hless, hless'⟩ := hrest
  dsimp only [Holding.less] at hless hless'
  rw [KResourceLimit.release, s64_eq_some (by omega) (by omega), s64_eq_some (by omega) (by omega)]
  rfl

lemma Inv.initial : Inv .initial where
  current := rfl
  hints := rfl
  held := by simp [LimitState.initial]
  limit _ := le_rfl
  limit_lt _ := show (0 : ℤ) < 2 ^ 63 by decide
  peak _ := le_rfl
  waiting := by simp [LimitState.initial]

lemma Inv.ends (hs : s.Inv) (hvalue : IsS64 value) {r : Ending × KResourceLimit} (hr : s.limit.reserveRound which value inTime = some r) :
    Inv (s.ends which value r) := by
  obtain ⟨e, l, hround, hl⟩ := hs.reserveRound which hvalue inTime
  obtain rfl : (e, l) = r := Option.some.inj (hround.symm.trans hr)
  obtain ⟨he, rfl⟩ | ⟨rfl, hpos, hfits, rfl⟩ := hl
  · cases e with
    | reserved => exact absurd rfl he
    | failed => exact { hs with }
    | waits => exact { hs with waiting := List.forall_mem_cons.2 ⟨hvalue, hs.waiting⟩ }
  · refine ⟨?_, ?_, List.forall_mem_cons.2 ⟨⟨hpos.le, le_rfl⟩, hs.held⟩, fun w => ?_, hs.limit_lt, fun w => ?_, hs.waiting⟩
    · rw [LimitState.ends, total_cons, hs.current]
    · rw [LimitState.ends, total_cons, hs.hints]
    all_goals
      rcases eq_or_ne w which with rfl | hne
      · simp [LimitState.ends, hfits]
      · simp [LimitState.ends, update_of_ne hne, hs.limit w, hs.peak w]

lemma total_less (hh : h ∈ held) {v : ℤ} (hv : f (h.less value hint) = f h - v) :
    total f (h.less value hint :: held.erase h) = update (total f held) h.which (total f held h.which - v) := by
  rw [total_cons, total_erase hh, update_self, hv]
  simp only [Holding.less, update_idem, add_sub_assoc]

lemma Inv.released (hs : s.Inv) (hh : h ∈ s.held) (hvalue : 0 ≤ value) (hhint : 0 ≤ hint) (hrest : (h.less value hint).Valid)
    {l : KResourceLimit} (hl : s.limit.release h.which value hint = some l) : Inv (s.released h value hint l) := by
  obtain rfl := Option.some.inj ((hs.release hh hvalue hhint hrest).symm.trans hl)
  refine ⟨?_, ?_, List.forall_mem_cons.2 ⟨hrest, fun h' hh' => hs.held h' (List.mem_of_mem_erase hh')⟩, fun w => ?_, hs.limit_lt,
    fun w => ?_, hs.waiting⟩
  · rw [LimitState.released, total_less (v := value) hh rfl, hs.current]
  · rw [LimitState.released, total_less (v := hint) hh rfl, hs.hints]
  all_goals
    have hlimit := hs.limit w
    have hpeak := hs.peak w
    rcases eq_or_ne w h.which with rfl | hne
    · simp only [LimitState.released, update_self]
      omega
    · simpa only [LimitState.released, update_of_ne hne]

lemma Inv.step (hs : s.Inv) (hstep : Step s s') : Inv s' := by
  cases hstep with
  | @reserve which value inTime r hvalue hr =>
    rcases reserve_eq s.limit which value inTime with heq | heq
    · obtain rfl := Option.some.inj (heq.symm.trans hr)
      exact { hs with }
    · exact hs.ends hvalue (heq.symm.trans hr)
  | @resume which value inTime r hcall hr =>
    have hs' : Inv { s with waiting := s.waiting.erase (which, value) } :=
      { hs with waiting := fun call hcall' => hs.waiting call (List.mem_of_mem_erase hcall') }
    exact hs'.ends (hs.waiting _ hcall) hr
  | @setLimitValue which value hvalue =>
    rw [KResourceLimit.setLimitValue]
    split
    · rename_i hle
      refine { hs with limit := fun w => ?_, limit_lt := fun w => ?_, peak := fun w => ?_ } <;> rcases eq_or_ne w which with rfl | hne
      · simpa
      · simpa [update_of_ne hne] using hs.limit w
      · simpa using hvalue.2
      · simpa [update_of_ne hne] using hs.limit_lt w
      · simp
      · simpa [update_of_ne hne] using hs.peak w
    · exact { hs with }
  | release hh hvalue hhint hrest hl => exact hs.released hh hvalue hhint hrest hl
  | @join h h' hh hh' hwhich =>
    have hvalid := hs.held h hh
    have hvalid' := hs.held h' (List.mem_of_mem_erase hh')
    have hjoin : ∀ f : Holding → ℤ, f ⟨h.which, h.value + h'.value, h.hint + h'.hint⟩ = f h + f h' →
        total f (⟨h.which, h.value + h'.value, h.hint + h'.hint⟩ :: (s.held.erase h).erase h') = total f s.held := by
      intro f hf
      rw [total_cons, total_erase hh, total_erase hh', hf, hwhich, update_self, update_idem]
      rw [add_assoc, add_comm (f h') (f h)]
    refine { hs with current := ?_, hints := ?_, held := List.forall_mem_cons.2 ⟨?_, fun k hk => ?_⟩ }
    · rw [hjoin _ rfl, hs.current]
    · rw [hjoin _ rfl, hs.hints]
    · exact ⟨add_nonneg hvalid.1 hvalid'.1, add_le_add hvalid.2 hvalid'.2⟩
    · exact hs.held k (List.mem_of_mem_erase (List.mem_of_mem_erase hk))
  | exit hh hl => exact hs.released hh le_rfl one_pos.le ⟨le_rfl, zero_le_one⟩ hl
  | @postDestroy releaseHint l hh hl =>
    refine hs.released hh one_pos.le ?_ ⟨(sub_self _).ge, ?_⟩ hl <;> cases releaseHint <;> decide

lemma Inv.run (hrun : Relation.ReflTransGen Step .initial s) : Inv s := by
  induction hrun with
  | refl => exact .initial
  | tail _ hstep ih => exact ih.step hstep

/-- The four values of a resource are in order. -/
def InOrder (l : KResourceLimit) (which : LimitableResource) : Prop :=
  0 ≤ l.currentHints which ∧ l.currentHints which ≤ l.currentValues which ∧ l.currentValues which ≤ l.limitValues which ∧
    l.currentValues which ≤ l.peakValues which

/-- The operation does not overflow, and changes nothing unless it reserves. -/
def Sound (l : KResourceLimit) (result : Option (Ending × KResourceLimit)) : Prop :=
  ∃ e l', result = some (e, l') ∧ (e ≠ .reserved → l' = l)

/-- **The accounts of a resource limit are right in every run.** -/
theorem resourceLimit_accounting {s : LimitState} (hrun : Relation.ReflTransGen Step .initial s) :
    (∀ which, InOrder s.limit which) ∧
    (∀ which value inTime, IsS64 value →
      Sound s.limit (s.limit.reserve which value inTime) ∧ Sound s.limit (s.limit.reserveRound which value inTime)) ∧
    (∀ h ∈ s.held, ∀ value hint, 0 ≤ value → 0 ≤ hint → (h.less value hint).Valid → (s.limit.release h.which value hint).isSome) ∧
    ∀ which value, (s.limit.setLimitValue which value).1 = false → (s.limit.setLimitValue which value).2 = s.limit := by
  have hs := Inv.run hrun
  refine ⟨fun which => ?_, fun which value inTime hvalue => ?_, fun h hh value hint hvalue hhint hrest => ?_, fun which value hfail => ?_⟩
  · exact ⟨(hs.order which).1, (hs.order which).2, hs.limit which, hs.peak which⟩
  · have hround : Sound s.limit (s.limit.reserveRound which value inTime) := by
      obtain ⟨e, l, heq, hl⟩ := hs.reserveRound which hvalue inTime
      exact ⟨e, l, heq, fun he => hl.elim And.right fun hreserved => absurd hreserved.1 he⟩
    refine ⟨?_, hround⟩
    rcases reserve_eq s.limit which value inTime with heq | heq
    · exact ⟨_, _, heq, fun _ => rfl⟩
    · rwa [heq]
  · rw [hs.release hh hvalue hhint hrest]
    rfl
  · rw [KResourceLimit.setLimitValue] at hfail ⊢
    split at hfail
    · cases hfail
    · rename_i hlt
      rw [if_neg hlt]

/-- One resource with the limit 1, and a thread that holds it. -/
theorem resourceLimit_accounting_one : ∃ s : LimitState, Relation.ReflTransGen Step .initial s ∧ s.limit.currentValues .ThreadCountMax = 1 ∧
    InOrder s.limit .ThreadCountMax := by
  have hset : Step .initial { LimitState.initial with limit := (KResourceLimit.initial.setLimitValue .ThreadCountMax 1).2 } :=
    .setLimitValue (by decide)
  have hreserve := @Step.reserve { LimitState.initial with limit := (KResourceLimit.initial.setLimitValue .ThreadCountMax 1).2 }
    .ThreadCountMax 1 true _ (by decide) rfl
  have hrun := (Relation.ReflTransGen.single hset).tail hreserve
  exact ⟨_, hrun, rfl, (resourceLimit_accounting hrun).1 _⟩

/-- A `Release` of a value before its hint passes the assertions of `Release`, and leaves the hint above the value. -/
theorem resourceLimit_early_value : ∃ l l' : KResourceLimit,
    (KResourceLimit.initial.setLimitValue .ThreadCountMax 1).2.reserve .ThreadCountMax 1 true = some (.reserved, l) ∧
      l.currentValues .ThreadCountMax ≤ l.limitValues .ThreadCountMax ∧ l.currentHints .ThreadCountMax ≤ l.currentValues .ThreadCountMax ∧
      1 ≤ l.currentValues .ThreadCountMax ∧ 0 ≤ l.currentHints .ThreadCountMax ∧
      l.release .ThreadCountMax 1 0 = some l' ∧ ¬ InOrder l' .ThreadCountMax :=
  ⟨_, _, rfl, by decide, by decide, by decide, by decide, rfl, fun h => absurd h.2.1 (by decide)⟩

end LimitState

end Voltemu.Kernel
