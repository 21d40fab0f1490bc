import Mathlib.Data.BitVec
import Mathlib.Data.List.Chain
import Mathlib.Data.List.TakeWhile
import Mathlib.Order.Bounds.Basic

/-!
# `RangeMap`: a function on addresses, stored by its changes

`common/range_map.h`.

* Addresses are the values of `KeyT`, after the casts.  The container is the list of the elements of the
  `std::map` in the order of their keys; an iterator is the list from there on.
* `rangeMap_pointwise`: after any calls the map answers, at each address, by the last call that contained it.  Calls on empty
  ranges have to agree with one of the two neighbouring values, else the map changes (`empty_range_maps`).
-/

namespace Voltemu.Common

open List

variable {V : Type*}

/-- `bits` is the width of `KeyT`. -/
structure RangeMap (V : Type*) where
  bits : ℕ
  nullValue : V
  container : List (ℤ × V)

namespace RangeMap

/-- `std::numeric_limits<KeyT>::min()`. -/
def lowest (bits : ℕ) : ℤ := -2 ^ (bits - 1)

/-- `std::numeric_limits<KeyT>::max()`. -/
def highest (bits : ℕ) : ℤ := 2 ^ (bits - 1) - 1

def new (bits : ℕ) (nullValue : V) : RangeMap V := ⟨bits, nullValue, [(lowest bits, nullValue)]⟩

variable (m : RangeMap V) (address : ℤ)

/-- `container.lower_bound` and what stands before it. -/
def lowerBound : List (ℤ × V) × List (ℤ × V) :=
  (m.container.takeWhile (·.1 < address), m.container.dropWhile (·.1 < address))

/-- `container.upper_bound` and what stands before it. -/
def upperBound : List (ℤ × V) × List (ℤ × V) :=
  (m.container.takeWhile (·.1 ≤ address), m.container.dropWhile (·.1 ≤ address))

def getFirstElementBeforeOrOn : List (ℤ × V) :=
  match (m.lowerBound address).1.getLast?, (m.lowerBound address).2 with
  | none, it => it
  | some p, it => if it.head?.map Prod.fst = some address then it else p :: it

/-- `GetFirstValueWithin`, the value just before the address. -/
def getFirstValueWithin : V :=
  match (m.lowerBound address).1.getLast?, (m.lowerBound address).2 with
  | none, it => it.head?.elim m.nullValue Prod.snd
  | some _, [] => m.nullValue
  | some p, _ => p.2

/-- `GetLastValueWithin`, the value at the address. -/
def getLastValueWithin : V :=
  match (m.upperBound address).1.getLast?, (m.upperBound address).2 with
  | _, [] => m.nullValue
  | none, q :: _ => q.2
  | some p, _ => p.2

/-- `container.emplace`, which changes nothing if there is such a key. -/
def emplace (container : List (ℤ × V)) (key : ℤ) (value : V) : List (ℤ × V) :=
  if key ∈ container.map Prod.fst then container
  else container.takeWhile (·.1 < key) ++ (key, value) :: container.dropWhile (·.1 < key)

/-- `GetValueAt`, with `GetValueInternal`. -/
def getValueAt : V :=
  if address < 0 then m.nullValue else (m.getFirstElementBeforeOrOn address).head?.elim m.nullValue Prod.snd

variable [DecidableEq V]

def internalMap (addressEnd : ℤ) (value : V) : RangeMap V :=
  let lastValue := m.getLastValueWithin addressEnd
  let kept := (m.lowerBound address).1 ++ (m.upperBound addressEnd).2
  let kept := if m.getFirstValueWithin address ≠ value then emplace kept address value else kept
  { m with container := if lastValue ≠ value then emplace kept addressEnd lastValue else kept }

def map (addressEnd : ℤ) (value : V) : RangeMap V :=
  m.internalMap (if address < 0 then 0 else address) (if addressEnd < 0 then 0 else addressEnd) value

def unmap (addressEnd : ℤ) : RangeMap V := m.map address addressEnd m.nullValue

/-- `GetContinuousSizeFrom`, with `ContinuousSizeInternal`. -/
def getContinuousSizeFrom : ℤ :=
  if address < 0 then 0
  else match m.getFirstElementBeforeOrOn address with
    | [] => 0
    | p :: next =>
        if p.2 = m.nullValue then 0
        else next.head?.elim (highest m.bits - address) (·.1 - address)

end RangeMap

/-! ## Calls -/

inductive RangeCall (V : Type*)
  | map (address addressEnd : ℤ) (value : V)
  | unmap (address addressEnd : ℤ)

namespace RangeCall

def address : RangeCall V → ℤ
  | map a _ _ | unmap a _ => a

def addressEnd : RangeCall V → ℤ
  | map _ e _ | unmap _ e => e

def value (null : V) : RangeCall V → V
  | map _ _ v => v
  | unmap _ _ => null

def step [DecidableEq V] (m : RangeMap V) : RangeCall V → RangeMap V
  | map a e v => m.map a e v
  | unmap a e => m.unmap a e

/-- The value of the last call that contained the address. -/
def lastValue (null : V) (calls : List (RangeCall V)) (x : ℤ) : V :=
  (calls.reverse.find? fun c => c.address ≤ x ∧ x < c.addressEnd).elim null (·.value null)

/-- A range of addresses; an empty one stands next to or at its value. -/
structure Keeps (null : V) (before : List (RangeCall V)) (c : RangeCall V) : Prop where
  nonneg : 0 ≤ c.address
  le : c.address ≤ c.addressEnd
  empty : c.address = c.addressEnd → lastValue null before (c.address - 1) = c.value null ∨
    lastValue null before c.address = c.value null

def AllKeep (null : V) (calls : List (RangeCall V)) : Prop :=
  ∀ before c after, calls = before ++ c :: after → Keeps null before c

end RangeCall

/-! ## Lists of changes -/

section Changes

variable {l r X Y : List (ℤ × V)} {u v w : V} {a e k x : ℤ}

def lastOf (l : List (ℤ × V)) : Option V := l.getLast?.map Prod.snd

def valueAt (l : List (ℤ × V)) (x : ℤ) : Option V := lastOf (l.takeWhile (·.1 ≤ x))

def Ascending (l : List (ℤ × V)) : Prop := l.Pairwise fun p q => p.1 < q.1

/-- No change is to the value that is there already. -/
def Differ (l : List (ℤ × V)) : Prop := l.IsChain fun p q => p.2 ≠ q.2

lemma lastOf_append : lastOf (l ++ r) = (lastOf r).or (lastOf l) := by
  simp only [lastOf, getLast?_append]
  cases r.getLast? <;> rfl

lemma takeWhile_of_lt (h : ∀ p ∈ r, x < p.1) : r.takeWhile (·.1 ≤ x) = [] := by
  cases r with
  | nil => rfl
  | cons p r => simp [(h p mem_cons_self).not_ge]

lemma valueAt_append_of_le (h : ∀ p ∈ l, p.1 ≤ x) : valueAt (l ++ r) x = (valueAt r x).or (lastOf l) := by
  rw [valueAt, takeWhile_append_of_pos (by simpa using h), lastOf_append, valueAt]

lemma valueAt_append_of_lt (h : ∀ p ∈ r, x < p.1) : valueAt (l ++ r) x = valueAt l x := by
  rw [valueAt, takeWhile_append, takeWhile_of_lt h, append_nil, valueAt]
  split_ifs with hlen
  · rw [( takeWhile_prefix _).eq_of_length hlen]
  · rfl

/-- In order, what a bound leaves behind it is all on the other side. -/
lemma Ascending.of_mem_dropWhile {P : ℤ × V → Bool} (h : Ascending l) (hP : ∀ p q, p.1 < q.1 → P q = true → P p = true) :
    ∀ p ∈ l.dropWhile P, P p = false := by
  induction l with
  | nil => simp
  | cons q l ih =>
    obtain ⟨hq, hl⟩ := pairwise_cons.1 h
    rw [dropWhile_cons]
    split_ifs with htest
    · exact ih hl
    · intro p hp
      rcases mem_cons.1 hp with rfl | hp
      · simpa using htest
      · simpa using fun hPp => htest (hP q p (hq p hp) hPp)

lemma Ascending.le_of_mem_dropWhile (h : Ascending l) : ∀ p ∈ l.dropWhile (·.1 < a), a ≤ p.1 := fun p hp => by
  simpa using h.of_mem_dropWhile (fun p q hpq hq => by simpa using hpq.trans (by simpa using hq)) p hp

lemma Ascending.lt_of_mem_dropWhile (h : Ascending l) : ∀ p ∈ l.dropWhile (·.1 ≤ e), e < p.1 := fun p hp => by
  simpa using h.of_mem_dropWhile (fun p q hpq hq => by simpa using hpq.le.trans (by simpa using hq)) p hp

lemma emplace_between (hX : ∀ p ∈ X, p.1 < k) (hY : ∀ p ∈ Y, k < p.1) :
    RangeMap.emplace (X ++ Y) k v = X ++ (k, v) :: Y := by
  have hnew : k ∉ (X ++ Y).map Prod.fst := by
    rw [mem_map]
    rintro ⟨p, hp, rfl⟩
    rcases mem_append.1 hp with hp | hp
    · exact lt_irrefl _ (hX p hp)
    · exact lt_irrefl _ (hY p hp)
  have hstop : Y.takeWhile (·.1 < k) = [] ∧ Y.dropWhile (·.1 < k) = Y := by
    cases Y with
    | nil => exact ⟨rfl, rfl⟩
    | cons p Y => simp [(hY p mem_cons_self).not_gt]
  rw [RangeMap.emplace, if_neg hnew, takeWhile_append_of_pos (by simpa using hX), dropWhile_append_of_pos (by simpa using hX),
    hstop.1, hstop.2, append_nil]

/-- What stands behind a change depends on its value only. -/
lemma differ_append (hX : Differ X) (hlast : lastOf X = lastOf Y) (h : Differ (Y ++ r)) : Differ (X ++ r) := by
  obtain ⟨-, hr, hnext⟩ := isChain_append.1 h
  refine isChain_append.2 ⟨hX, hr, fun p hp q hq => ?_⟩
  rw [lastOf, Option.mem_def.1 hp] at hlast
  obtain ⟨p', hp', hpp⟩ := Option.map_eq_some_iff.1 hlast.symm
  exact hpp ▸ hnext p' hp' q hq

variable [DecidableEq V]

/-- A change to `v` at `a`, unless `v` is the value there already. -/
def changeTo (u : V) (a : ℤ) (v : V) : List (ℤ × V) := if u ≠ v then [(a, v)] else []

@[simp] lemma changeTo_self : changeTo v a v = [] := if_neg (not_not.2 rfl)

lemma changeTo_of_ne (h : u ≠ v) : changeTo u a v = [(a, v)] := if_pos h

lemma mem_changeTo {p : ℤ × V} (hp : p ∈ changeTo u a v) : p.1 = a := by
  unfold changeTo at hp
  split_ifs at hp
  · rw [mem_singleton.1 hp]
  · cases hp

lemma lastOf_changeTo (h : lastOf l = some u) (a : ℤ) (v : V) : lastOf (l ++ changeTo u a v) = some v := by
  by_cases huv : u = v
  · rw [huv, changeTo_self, append_nil, h, huv]
  · rw [changeTo_of_ne huv, lastOf_append]
    rfl

lemma differ_changeTo (h : Differ l) (hl : lastOf l = some u) (a : ℤ) (v : V) : Differ (l ++ changeTo u a v) := by
  by_cases huv : u = v
  · rwa [huv, changeTo_self, append_nil]
  · refine differ_append h (Y := [(a, u)]) hl ?_
    rw [changeTo_of_ne huv]
    simpa [Differ] using huv

lemma ascending_changeTo (h : Ascending l) (hl : u = v ∨ ∀ p ∈ l, p.1 < a) : Ascending (l ++ changeTo u a v) := by
  rcases eq_or_ne u v with rfl | huv
  · rwa [changeTo_self, append_nil]
  · rw [changeTo_of_ne huv]
    exact pairwise_append.2 ⟨h, pairwise_singleton .., fun p hp q hq => mem_singleton.1 hq ▸ hl.resolve_left huv p hp⟩

/-- At an empty range one of the two changes is absent. -/
lemma below_end (hl : ∀ p ∈ l, p.1 < a) (hae : a ≤ e) (hempty : a = e → u = v ∨ w = v) :
    v = w ∨ ∀ p ∈ l ++ changeTo u a v, p.1 < e := by
  refine or_iff_not_imp_left.2 fun hvw p hp => ?_
  rcases mem_append.1 hp with hp | hp
  · exact (hl p hp).trans_le hae
  · rw [mem_changeTo hp]
    refine lt_of_le_of_ne hae fun heq => ?_
    obtain rfl := (hempty heq).resolve_right (Ne.symm hvw)
    rw [changeTo_self] at hp
    cases hp

end Changes

namespace RangeMap

variable {m : RangeMap V} {f : ℤ → V} {u v : V} {a e x : ℤ}

/-- The map stores `f` from -1 on. -/
structure Stores (m : RangeMap V) (f : ℤ → V) : Prop where
  ascending : Ascending m.container
  last : lastOf m.container = some m.nullValue
  differ : Differ m.container
  value : ∀ x, -1 ≤ x → valueAt m.container x = some (f x)

lemma lowerBound_append : (m.lowerBound a).1 ++ (m.lowerBound a).2 = m.container := takeWhile_append_dropWhile

lemma upperBound_append : (m.upperBound e).1 ++ (m.upperBound e).2 = m.container := takeWhile_append_dropWhile

lemma lt_of_mem_lowerBound : ∀ p ∈ (m.lowerBound a).1, p.1 < a := fun p hp => by simpa using mem_takeWhile_imp hp

lemma le_of_mem_upperBound : ∀ p ∈ (m.upperBound e).1, p.1 ≤ e := fun p hp => by simpa using mem_takeWhile_imp hp

section

variable (h : m.Stores f)
include h

lemma Stores.le_of_mem_lowerBound : ∀ p ∈ (m.lowerBound a).2, a ≤ p.1 := h.ascending.le_of_mem_dropWhile

lemma Stores.lt_of_mem_upperBound : ∀ p ∈ (m.upperBound e).2, e < p.1 := h.ascending.lt_of_mem_dropWhile

lemma Stores.lastOf_lowerBound (ha : 0 ≤ a) : lastOf (m.lowerBound a).1 = some (f (a - 1)) := by
  rw [← h.value (a - 1) (by omega), valueAt, lowerBound]
  simp only [Int.le_sub_one_iff]

lemma Stores.lastOf_upperBound (hx : 0 ≤ x) : lastOf (m.upperBound x).1 = some (f x) := h.value x (by omega)

/-- At the end of the map the code takes the value to be null without reading it, and it is. -/
lemma Stores.getFirstValueWithin (ha : 0 ≤ a) : m.getFirstValueWithin a = f (a - 1) := by
  have hlast := h.lastOf_lowerBound ha
  have hsplit := lowerBound_append (m := m) (a := a)
  obtain ⟨p, hp, hpf⟩ := Option.map_eq_some_iff.1 hlast
  rw [RangeMap.getFirstValueWithin, hp]
  cases hit : (m.lowerBound a).2 with
  | nil =>
    rw [hit, append_nil] at hsplit
    exact Option.some.inj ((h.last.symm.trans (hsplit ▸ rfl)).trans hlast)
  | cons => exact hpf

lemma Stores.getLastValueWithin (he : 0 ≤ e) : m.getLastValueWithin e = f e := by
  have hlast := h.lastOf_upperBound he
  have hsplit := upperBound_append (m := m) (e := e)
  obtain ⟨p, hp, hpf⟩ := Option.map_eq_some_iff.1 hlast
  rw [RangeMap.getLastValueWithin, hp]
  cases hit : (m.upperBound e).2 with
  | nil =>
    rw [hit, append_nil] at hsplit
    exact Option.some.inj ((h.last.symm.trans (hsplit ▸ rfl)).trans hlast)
  | cons => exact hpf

variable [DecidableEq V]

/-- **The container after `InternalMap`.**  Where the range is empty one of the two changes has to be absent. -/
lemma Stores.internalMap_container (ha : 0 ≤ a) (hae : a ≤ e) (hempty : a = e → f (a - 1) = v ∨ f e = v) :
    (m.internalMap a e v).container =
      (m.lowerBound a).1 ++ changeTo (f (a - 1)) a v ++ changeTo v e (f e) ++ (m.upperBound e).2 := by
  have habove := h.lt_of_mem_upperBound (e := e)
  have hstart : (if f (a - 1) ≠ v then emplace ((m.lowerBound a).1 ++ (m.upperBound e).2) a v
      else (m.lowerBound a).1 ++ (m.upperBound e).2) =
      (m.lowerBound a).1 ++ changeTo (f (a - 1)) a v ++ (m.upperBound e).2 := by
    unfold changeTo
    split_ifs
    · rw [emplace_between lt_of_mem_lowerBound fun p hp => hae.trans_lt (habove p hp), append_assoc, singleton_append]
    · rw [append_nil]
  simp only [internalMap, h.getFirstValueWithin ha, h.getLastValueWithin (ha.trans hae), hstart]
  rcases below_end lt_of_mem_lowerBound hae hempty with hvw | hbelow
  · simp [← hvw]
  · by_cases hwv : f e = v
    · simp [hwv]
    · rw [if_pos hwv, emplace_between hbelow habove, changeTo_of_ne (Ne.symm hwv), append_assoc _ [(e, f e)],
        singleton_append]

lemma Stores.internalMap (ha : 0 ≤ a) (hae : a ≤ e) (hempty : a = e → f (a - 1) = v ∨ f a = v) :
    (m.internalMap a e v).Stores fun x => if a ≤ x ∧ x < e then v else f x := by
  have hempty' : a = e → f (a - 1) = v ∨ f e = v := fun heq => heq ▸ hempty heq
  have hnew := h.internalMap_container ha hae hempty'
  have hbelow := lt_of_mem_lowerBound (m := m) (a := a)
  have habove := h.lt_of_mem_upperBound (e := e)
  have hu := h.lastOf_lowerBound ha
  have hw := h.lastOf_upperBound (ha.trans hae)
  have hv := lastOf_changeTo hu a v
  have hend := lastOf_changeTo hv e (f e)
  have hle : ∀ p ∈ (m.lowerBound a).1 ++ changeTo (f (a - 1)) a v ++ changeTo v e (f e), p.1 ≤ e := by
    intro p hp
    rcases mem_append.1 hp with hp | hp
    · rcases mem_append.1 hp with hp | hp
      · exact (hbelow p hp).le.trans hae
      · rwa [mem_changeTo hp]
    · rw [mem_changeTo hp]
  refine ⟨?_, ?_, ?_, fun x hx => ?_⟩
  · rw [hnew]
    have hL : Ascending (m.lowerBound a).1 := h.ascending.sublist (takeWhile_sublist _)
    have hR : Ascending (m.upperBound e).2 := h.ascending.sublist (dropWhile_sublist _)
    exact pairwise_append.2 ⟨ascending_changeTo (ascending_changeTo hL (.inr hbelow)) (below_end hbelow hae hempty'), hR,
      fun p hp q hq => (hle p hp).trans_lt (habove q hq)⟩
  · have hlast := h.last
    rw [← upperBound_append (e := e), lastOf_append, hw] at hlast
    rw [hnew, lastOf_append, hend]
    exact hlast
  · rw [hnew]
    have hdiffer := h.differ
    have hL : Differ (m.lowerBound a).1 := by
      rw [← lowerBound_append (a := a)] at hdiffer
      exact (isChain_append.1 hdiffer).1
    rw [← upperBound_append (e := e)] at hdiffer
    exact differ_append (differ_changeTo (differ_changeTo hL hu a v) hv e _) (hend.trans hw.symm) hdiffer
  · rw [hnew]
    have hold := h.value x hx
    rcases lt_or_ge x e with hxe | hex
    · rw [valueAt_append_of_lt fun p hp => hxe.trans (habove p hp),
        valueAt_append_of_lt fun p hp => hxe.trans_eq (mem_changeTo hp).symm]
      rcases lt_or_ge x a with hxa | hax
      · rw [if_neg (by omega), ← hold, valueAt_append_of_lt fun p hp => hxa.trans_eq (mem_changeTo hp).symm]
        conv_rhs => rw [← lowerBound_append (a := a), valueAt_append_of_lt fun p hp => hxa.trans_le (h.le_of_mem_lowerBound p hp)]
      · rw [if_pos ⟨hax, hxe⟩, ← hv, ← append_nil (_ ++ changeTo _ _ _), valueAt_append_of_le fun p hp => ?_, append_nil]
        · rfl
        · rcases mem_append.1 hp with hp | hp
          · exact (hbelow p hp).le.trans hax
          · rwa [mem_changeTo hp]
    · rw [if_neg (by omega), ← hold, valueAt_append_of_le fun p hp => (hle p hp).trans hex, hend]
      conv_rhs => rw [← upperBound_append (e := e), valueAt_append_of_le fun p hp => (le_of_mem_upperBound p hp).trans hex, hw]

end

/-! ## Reading -/

lemma upperBound_eq {X Y : List (ℤ × V)} (hc : m.container = X ++ Y) (hX : ∀ p ∈ X, p.1 ≤ x) (hY : ∀ p ∈ Y, x < p.1) :
    m.upperBound x = (X, Y) := by
  have hall : ∀ p ∈ X, decide (p.1 ≤ x) = true := by simpa using hX
  have hstop : Y.dropWhile (·.1 ≤ x) = Y := by
    cases Y with
    | nil => rfl
    | cons p Y => simp [(hY p mem_cons_self).not_ge]
  rw [upperBound, hc, takeWhile_append_of_pos hall, takeWhile_of_lt hY, dropWhile_append_of_pos hall, append_nil, hstop]

section

variable (h : m.Stores f) (hx : 0 ≤ x)
include h hx

lemma Stores.getFirstElementBeforeOrOn : ∃ p, p.2 = f x ∧ m.getFirstElementBeforeOrOn x = p :: (m.upperBound x).2 := by
  obtain ⟨q, hq, -⟩ := Option.map_eq_some_iff.1 (h.lastOf_lowerBound hx)
  have hupper := h.lastOf_upperBound hx
  have hsplit := lowerBound_append (m := m) (a := x)
  have hle := h.le_of_mem_lowerBound (a := x)
  have hascending := h.ascending
  rw [RangeMap.getFirstElementBeforeOrOn, hq]
  simp only
  split_ifs with hhead
  · obtain ⟨p, hp, rfl⟩ := Option.map_eq_some_iff.1 hhead
    obtain ⟨it, hit⟩ := head?_eq_some_iff.1 hp
    rw [hit, append_cons] at hsplit
    rw [← hsplit] at hascending
    have heq := upperBound_eq hsplit.symm (fun r hr => (mem_append.1 hr).elim (fun hr => (lt_of_mem_lowerBound r hr).le)
      fun hr => (congrArg Prod.fst (mem_singleton.1 hr)).le) fun r hr => (pairwise_append.1 hascending).2.2 p (by simp) r hr
    rw [heq, lastOf_append] at hupper
    exact ⟨p, Option.some.inj hupper, by rw [heq, hit]⟩
  · have heq := upperBound_eq hsplit.symm (fun r hr => (lt_of_mem_lowerBound r hr).le) fun r hr => by
      refine lt_of_le_of_ne (hle r hr) fun hxr => ?_
      obtain ⟨p, it, hit⟩ := exists_cons_of_ne_nil (ne_nil_of_mem hr)
      have hp := hle p (by rw [hit]; exact mem_cons_self)
      rw [hit] at hr hhead
      rw [← hsplit, hit] at hascending
      rcases mem_cons.1 hr with rfl | hr
      · exact hhead (by simp [hxr])
      · exact absurd ((pairwise_cons.1 (pairwise_append.1 hascending).2.1).1 r hr) (by omega)
    rw [heq, lastOf, hq] at hupper
    exact ⟨q, Option.some.inj hupper, by rw [heq]⟩

lemma Stores.getValueAt : m.getValueAt x = f x := by
  obtain ⟨p, hp, hit⟩ := h.getFirstElementBeforeOrOn hx
  rw [RangeMap.getValueAt, if_neg (by omega), hit]
  exact hp

/-- **The size reaches to the next address with another value.** -/
lemma Stores.getContinuousSizeFrom [DecidableEq V] :
    if f x = m.nullValue then m.getContinuousSizeFrom x = 0
    else IsLeast {y | x < y ∧ f y ≠ f x} (x + m.getContinuousSizeFrom x) := by
  obtain ⟨p, hp, hit⟩ := h.getFirstElementBeforeOrOn hx
  have hlast := h.lastOf_upperBound hx
  have habove := h.lt_of_mem_upperBound (e := x)
  have hsplit := upperBound_append (m := m) (e := x)
  have hupTo := le_of_mem_upperBound (m := m) (e := x)
  by_cases hnull : f x = m.nullValue
  · rw [if_pos hnull, RangeMap.getContinuousSizeFrom, if_neg (by omega), hit]
    exact if_pos (hp.trans hnull)
  rw [if_neg hnull, RangeMap.getContinuousSizeFrom, if_neg (by omega), hit]
  simp only [hp, if_neg hnull]
  cases hnext : (m.upperBound x).2 with
  | nil =>
    rw [hnext, append_nil] at hsplit
    exact absurd (Option.some.inj (hlast.symm.trans (hsplit ▸ h.last))) hnull
  | cons q next =>
    rw [hnext] at habove hsplit
    have hk := habove q mem_cons_self
    have hchanges := h.differ
    have hascending := h.ascending
    rw [← hsplit] at hchanges hascending
    have hq : valueAt (q :: next) q.1 = some q.2 := by
      rw [valueAt, takeWhile_cons, if_pos (by simp), takeWhile_of_lt
        (pairwise_cons.1 (pairwise_append.1 hascending).2.1).1]
      rfl
    have hvalue := h.value q.1 (by omega)
    rw [← hsplit, valueAt_append_of_le fun r hr => (hupTo r hr).trans hk.le, hq] at hvalue
    have hne : f x ≠ q.2 := by
      obtain ⟨r, hr, hrf⟩ := Option.map_eq_some_iff.1 hlast
      exact hrf ▸ (isChain_append.1 hchanges).2.2 r hr q rfl
    have hxk : x + (q.1 - x) = q.1 := by omega
    simp only [head?_cons, Option.elim_some, hxk]
    refine ⟨⟨hk, fun heq => hne (heq.symm.trans (Option.some.inj hvalue).symm)⟩, fun y ⟨hxy, hy⟩ => not_lt.1 fun hyk => hy ?_⟩
    have hsame := h.value y (by omega)
    rw [← hsplit, valueAt_append_of_lt, ← append_nil (m.upperBound x).1, valueAt_append_of_le fun r hr => (hupTo r hr).trans hxy.le,
      hlast] at hsame
    · exact (Option.some.inj hsame).symm
    · intro r hr
      rcases mem_cons.1 hr with rfl | hr
      · exact hyk
      · exact hyk.trans ((pairwise_cons.1 (pairwise_append.1 hascending).2.1).1 r hr)

end

end RangeMap

/-! ## Runs -/

namespace RangeCall

open RangeMap

variable {calls : List (RangeCall V)} {c : RangeCall V} {null : V} {m : RangeMap V}

lemma lastValue_concat (null : V) (calls : List (RangeCall V)) (c : RangeCall V) (x : ℤ) :
    lastValue null (calls ++ [c]) x = if c.address ≤ x ∧ x < c.addressEnd then c.value null else lastValue null calls x := by
  rw [lastValue, reverse_append, reverse_singleton, singleton_append, find?_cons]
  split_ifs with h
  · simp [h]
  · simp only [h, decide_false]
    rfl

lemma stores_new (bits : ℕ) (null : V) : (new bits null).Stores fun _ => null where
  ascending := pairwise_singleton ..
  last := rfl
  differ := isChain_singleton _
  value x hx := by
    have hpos : (0 : ℤ) < 2 ^ (bits - 1) := Int.pow_pos (by decide)
    have hlowest : lowest bits ≤ x := by
      unfold lowest
      omega
    rw [valueAt, new, takeWhile_cons, if_pos (by simpa using hlowest)]
    rfl

variable [DecidableEq V]

lemma step_eq (h : Keeps m.nullValue calls c) : step m c = m.internalMap c.address c.addressEnd (c.value m.nullValue) := by
  have hend := h.nonneg.trans h.le
  have hstart := h.nonneg
  cases c <;> simp_all [step, RangeMap.unmap, RangeMap.map, address, addressEnd, value, not_lt.2]

lemma stores_run (bits : ℕ) (h : AllKeep null calls) :
    (calls.foldl step (new bits null)).nullValue = null ∧ (calls.foldl step (new bits null)).Stores (lastValue null calls) := by
  induction calls using reverseRecOn with
  | nil => exact ⟨rfl, stores_new bits null⟩
  | append_singleton calls c ih =>
    obtain ⟨hnull, hstores⟩ := ih fun before d after hd => h before d (after ++ [c]) (by rw [hd, append_assoc, cons_append])
    have hc : Keeps (calls.foldl step (new bits null)).nullValue calls c := hnull.symm ▸ h calls c [] rfl
    rw [foldl_append, foldl_cons, foldl_nil, step_eq hc, hnull]
    rw [hnull] at hc
    refine ⟨hnull, ?_⟩
    rw [show lastValue null (calls ++ [c]) = _ from funext (lastValue_concat null calls c)]
    exact hstores.internalMap hc.nonneg hc.le hc.empty

/-- **`RangeMap` is pointwise correct** after every run of calls that meet the condition. -/
theorem rangeMap_pointwise (bits : ℕ) (null : V) (calls : List (RangeCall V)) (h : AllKeep null calls) (x : ℤ) (hx : 0 ≤ x) :
    (calls.foldl step (new bits null)).getValueAt x = lastValue null calls x ∧
    if lastValue null calls x = null then (calls.foldl step (new bits null)).getContinuousSizeFrom x = 0
    else IsLeast {y | x < y ∧ lastValue null calls y ≠ lastValue null calls x}
      (x + (calls.foldl step (new bits null)).getContinuousSizeFrom x) := by
  obtain ⟨hnull, hstores⟩ := stores_run bits h
  have hsize := hstores.getContinuousSizeFrom hx
  rw [hnull] at hsize
  exact ⟨hstores.getValueAt hx, hsize⟩

theorem rangeMap_pointwise_cut : ([map 3000 3500 1, unmap 3200 3600].foldl step (new 64 0)).getValueAt 3100 = 1 := by
  refine (rangeMap_pointwise 64 0 [map 3000 3500 1, unmap 3200 3600] (fun before c after h => ?_) 3100 (by decide)).1.trans
    (by decide)
  rcases before with _ | ⟨_, _ | ⟨_, before⟩⟩ <;> simp only [nil_append, cons_append, cons.injEq] at h
  · exact h.1 ▸ ⟨by decide, by decide, by decide⟩
  · exact h.2.1 ▸ ⟨by decide, by decide, fun heq => absurd heq (by decide)⟩
  · exact absurd h.2.2 (by simp)

/-- An empty range maps everything behind it: the element for its end is refused, as the one for its start has its key. -/
theorem empty_range_maps : ([map 5 5 1].foldl step (new 64 0)).getValueAt 5 = 1 ∧ lastValue 0 [map 5 5 1] 5 = 0 := by
  decide

end RangeCall

end Voltemu.Common
