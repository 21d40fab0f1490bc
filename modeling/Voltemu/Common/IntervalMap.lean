import Voltemu.Common.AddressSpace
import Mathlib.Data.List.Chain

/-!
# The block vector as an interval map

`translate` reads an address through the block it lies in.  The proofs cut the vector at the range of
the operation: `L ++ p :: (M ++ R)` with the blocks below the range, of which `p` is the last, those
inside and those above.

* `WellFormed` — the invariant of the block vector;
* `mapLocked_spec`, `unmapLocked_spec` — what an operation does to the vector and to `translate`;
* `TailMapped`, `UnmapMeets` — the condition for it; `unmapLocked` goes wrong outside of it.
* `interval_map_of_run` — whole runs.
-/

namespace Voltemu.Common

open Voltemu.Lib List Nat

variable {w : ℕ} {Extra : Type}

/-! ## Positions in a cut vector -/

section Positions

variable {l m r : List (Block w Extra)} {x y : Block w Extra} {lo n : ℕ}

lemma deref_at (hn : l.length = n) : deref (l ++ x :: r) n = .ok x := by
  subst hn
  simp [deref]

lemma set_at (hn : l.length = n) : (l ++ x :: r).set n y = l ++ y :: r := by
  subst hn
  simp

lemma insertAt_at (hn : l.length = n) (new : List (Block w Extra)) : insertAt (l ++ r) n new = l ++ (new ++ r) := by
  subst hn
  simp [insertAt]

lemma erase_at {k : ℕ} (hn : l.length = n) (hk : l.length + m.length = k) : erase (l ++ (m ++ r)) n k = l ++ r := by
  subst hn hk
  rw [erase, take_left, ← append_assoc, ← length_append, drop_left]

lemma walkToStartSuccessor_eq (hx : x.virt < lo) (hm : ∀ y ∈ m, lo ≤ y.virt) (hn : l.length + 1 + m.length = n) :
    walkToStartSuccessor (l ++ x :: (m ++ r)) lo n = .ok (l.length + 1) := by
  subst hn
  induction m using reverseRecOn generalizing r with
  | nil =>
    rw [length_nil, add_zero, walkToStartSuccessor, nil_append, deref_at rfl]
    show (if x.virt ≥ lo then _ else _) = _
    rw [if_neg (not_le.2 hx)]
  | append_singleton m y ih =>
    have hy : lo ≤ y.virt := hm y (by simp)
    have hlist : l ++ x :: (m ++ [y] ++ r) = (l ++ x :: m) ++ y :: r := by simp
    rw [length_append, length_singleton, ← add_assoc, walkToStartSuccessor, hlist, deref_at (by simp; omega)]
    show (if y.virt ≥ lo then _ else _) = _
    rw [if_pos hy]
    have hback : (l ++ x :: m) ++ y :: r = l ++ x :: (m ++ y :: r) := by simp
    rw [hback]
    exact ih (fun z hz => hm z (by simp [hz]))

lemma walkBackToPredecessor_eq (hx : x.virt < lo) (hm : ∀ y ∈ m, lo ≤ y.virt) (hn : l.length + m.length = n) :
    walkBackToPredecessor (l ++ x :: (m ++ r)) lo n = .ok l.length := by
  subst hn
  induction m using reverseRecOn generalizing r with
  | nil =>
    rw [length_nil, add_zero, nil_append]
    cases hl : l.length with
    | zero =>
      rw [walkBackToPredecessor, deref_at hl]
      show (if x.virt ≥ lo then _ else _) = _
      rw [if_neg (not_le.2 hx)]
    | succ k =>
      rw [walkBackToPredecessor, deref_at hl]
      show (if x.virt ≥ lo then _ else _) = _
      rw [if_neg (not_le.2 hx)]
  | append_singleton m y ih =>
    have hy : lo ≤ y.virt := hm y (by simp)
    have hlist : l ++ x :: (m ++ [y] ++ r) = (l ++ x :: m) ++ y :: r := by simp
    rw [length_append, length_singleton, ← add_assoc, walkBackToPredecessor, hlist, deref_at (by simp; omega)]
    show (if y.virt ≥ lo then _ else _) = _
    rw [if_pos hy]
    have hback : (l ++ x :: m) ++ y :: r = l ++ x :: (m ++ y :: r) := by simp
    rw [hback]
    exact ih (fun z hz => hm z (by simp [hz]))

end Positions

/-! ## Well-formed vectors -/

namespace AddressSpace

variable (A : AddressSpace w)

/-- What a block says about an address that lies in it. -/
def valueAt (b : Block w Extra) (a : ℕ) : Option (BitVec w × Extra) :=
  if A.Mapped b then some (A.advance b.phys (a - b.virt), b.extraInfo) else none

def translate (blocks : List (Block w Extra)) (a : ℕ) : Option (BitVec w × Extra) :=
  (inForce Block.virt blocks a).bind fun b => A.valueAt b a

/-- The invariant: sorted, from zero on, with an unmapped end, and no two unmapped blocks in a row. -/
structure WellFormed (blocks : List (Block w Extra)) : Prop where
  sorted : blocks.Pairwise fun b c => b.virt < c.virt
  first : ∃ b, blocks.head? = some b ∧ b.virt = 0
  last : ∃ b, blocks.getLast? = some b ∧ A.Unmapped b
  merged : blocks.IsChain fun b c => A.Mapped b ∨ A.Mapped c

structure Cut (lo hi : ℕ) (L : List (Block w Extra)) (p : Block w Extra)
    (M R : List (Block w Extra)) : Prop where
  below : ∀ x ∈ L, x.virt < lo
  pred : p.virt < lo
  inside : ∀ x ∈ M, lo ≤ x.virt ∧ x.virt < hi
  above : ∀ x ∈ R, hi ≤ x.virt

def HasStart (blocks : List (Block w Extra)) (x : ℕ) : Prop := ∃ b ∈ blocks, b.virt = x

variable {A} {blocks L M R : List (Block w Extra)} {p b e : Block w Extra} {lo hi a : ℕ}

variable {l S T Y : List (Block w Extra)} {x n : ℕ}

lemma hasStart_append {r : List (Block w Extra)} : HasStart (l ++ r) x ↔ HasStart l x ∨ HasStart r x := by
  simp only [HasStart, mem_append, or_and_right, exists_or]

lemma hasStart_cons : HasStart (b :: l) x ↔ b.virt = x ∨ HasStart l x := by
  simp [HasStart]

lemma not_hasStart (h : ∀ b ∈ l, b.virt ≠ x) : ¬ HasStart l x := by
  rintro ⟨b, hb, hv⟩
  exact h b hb hv

lemma valueAt_of_unmapped (h : A.Unmapped b) (a : ℕ) : A.valueAt b a = none :=
  if_neg (not_not.2 h)

lemma valueAt_of_mapped (h : A.Mapped b) (a : ℕ) : A.valueAt b a = some (A.advance b.phys (a - b.virt), b.extraInfo) :=
  if_pos h

lemma not_mapped : ¬ A.Mapped b ↔ A.Unmapped b := not_not

lemma WellFormed.exists_cut (h : A.WellFormed blocks) (hlo : 0 < lo) (hle : lo ≤ hi) :
    ∃ L p M R, blocks = L ++ p :: (M ++ R) ∧ Cut lo hi L p M R := by
  obtain ⟨L, M, R, rfl, hs⟩ := exists_split h.sorted lo hi
  rcases eq_nil_or_concat L with rfl | ⟨L, p, rfl⟩
  · -- the first block lies at zero, below the range
    obtain ⟨b, hb, hzero⟩ := h.first
    rcases mem_append.1 (mem_of_mem_head? hb) with hM | hR
    · have := hs.inside b hM
      omega
    · have := hs.above b hR
      omega
  · exact ⟨L, p, M, R, by simp, fun x hx => hs.below x (by simp [hx]), hs.below p (by simp), hs.inside, hs.above⟩

/-- Everything behind the block before the range is exchanged. -/
lemma WellFormed.exchange (h : A.WellFormed (L ++ p :: T))
    (hbelow : ∀ x ∈ L, x.virt < lo) (hp : p.virt < lo) (hS : ∀ x ∈ S, lo ≤ x.virt)
    (hsorted : S.Pairwise fun b c => b.virt < c.virt)
    (hmerged : (p :: S).IsChain fun b c => A.Mapped b ∨ A.Mapped c)
    (hlast : ∀ b ∈ (p :: S).getLast?, A.Unmapped b) :
    A.WellFormed (L ++ p :: S) := by
  obtain ⟨hL, hpT, hcross⟩ := pairwise_append.1 h.sorted
  obtain ⟨hLmerged, -, hborder⟩ := isChain_append.1 h.merged
  refine ⟨?_, ?_, ?_, ?_⟩
  · refine pairwise_append.2 ⟨hL, pairwise_cons.2 ⟨?_, hsorted⟩, ?_⟩
    · intro x hx
      exact hp.trans_le (hS x hx)
    · intro x hx y hy
      rcases mem_cons.1 hy with rfl | hy
      · exact hcross x hx _ mem_cons_self
      · exact (hbelow x hx).trans_le (hS y hy)
  · obtain ⟨b, hb, hzero⟩ := h.first
    refine ⟨b, ?_, hzero⟩
    cases L <;> simpa using hb
  · have hne : p :: S ≠ [] := by simp
    refine ⟨(p :: S).getLast hne, ?_, hlast _ (getLast?_eq_some_getLast hne)⟩
    rw [getLast?_append_of_ne_nil _ hne, getLast?_eq_some_getLast hne]
  · refine isChain_append.2 ⟨hLmerged, hmerged, ?_⟩
    intro x hx y hy
    exact hborder x hx y (by simpa using hy)

/-- The last of the blocks up to an address. -/
lemma translate_concat (hb : b.virt ≤ a) : A.translate (L ++ [b]) a = A.valueAt b a := by
  rw [translate, inForce_concat hb]
  rfl

lemma translate_of_lt (h : ∀ x ∈ R, a < x.virt) : A.translate (L ++ R) a = A.translate L a := by
  rw [translate, inForce_append_of_lt h, translate]

lemma Cut.lowerBound_eq (hc : Cut lo hi L p M R) (hle : lo ≤ hi) :
    lowerBound Block.virt (L ++ p :: (M ++ R)) hi = L.length + 1 + M.length := by
  have hlist : L ++ p :: (M ++ R) = (L ++ p :: M) ++ R := by simp
  rw [hlist, lowerBound_append _ hc.above]
  · simp
    omega
  · intro x hx
    rcases mem_append.1 hx with hx | hx
    · exact (hc.below x hx).trans_le hle
    · rcases mem_cons.1 hx with rfl | hx
      · exact hc.pred.trans_le hle
      · exact (hc.inside x hx).2

/-- What is needed at the end of the range: nothing if a block starts there, or the rest of the block
`e` that lies over it. -/
inductive TailFor (A : AddressSpace w) (e : Block w Extra) (hi : ℕ) :
    List (Block w Extra) → List (Block w Extra) → Prop
  | present {r : Block w Extra} {R : List (Block w Extra)} (hr : r.virt = hi) : TailFor A e hi (r :: R) []
  | added {t : Block w Extra} {R : List (Block w Extra)} (hR : ∀ r ∈ R.head?, r.virt ≠ hi) (virt : t.virt = hi)
      (ht : A.Unmapped e ∧ A.Unmapped t ∨
        A.Mapped e ∧ t.phys = A.advance e.phys (hi - e.virt) ∧ t.extraInfo = e.extraInfo) :
      TailFor A e hi R [t]

lemma TailFor.rest (hR : ∀ r ∈ R.head?, r.virt ≠ hi) :
    TailFor A e hi R [⟨hi, if A.Unmapped e then e.phys else A.advance e.phys (hi - e.virt), e.extraInfo⟩] := by
  refine .added hR rfl ?_
  by_cases he : A.Unmapped e
  · exact .inl ⟨he, (if_pos he).trans he⟩
  · exact .inr ⟨he, if_neg he, rfl⟩

variable {tail : List (Block w Extra)}

/-- Either way a block starts at the end of the range. -/
lemma TailFor.append_eq_cons (ht : TailFor A e hi R tail) : ∃ x S, tail ++ R = x :: S ∧ x.virt = hi := by
  cases ht with
  | present hr => exact ⟨_, _, rfl, hr⟩
  | added _ hv _ => exact ⟨_, _, rfl, hv⟩

lemma advance_advance (phys : BitVec w) (d d' : ℕ) : A.advance (A.advance phys d) d' = A.advance phys (d + d') := by
  simp only [advance]
  split_ifs
  · rw [BitVec.add_assoc, ← BitVec.ofNat_add]
  · rfl

/-- The condition for a cut at `hi`: the rest of a mapped block is mapped.  It can only fail if physical
addresses run into the value that stands for unmapped. -/
def TailMapped (A : AddressSpace w) (blocks : List (Block w Extra)) (hi : ℕ) : Prop :=
  ∀ e ∈ inForce Block.virt blocks (hi - 1), A.Mapped e → (∀ b ∈ blocks, b.virt ≠ hi) →
    A.advance e.phys (hi - e.virt) ≠ A.unmappedPa

instance : Decidable (A.TailMapped blocks hi) :=
  inferInstanceAs (Decidable (∀ e ∈ inForce Block.virt blocks (hi - 1), _))

section

variable (hc : Cut lo hi L p M R) (hlt : lo < hi)
include hc hlt

lemma Cut.mem_last (he : (p :: M).getLast? = some e) : e.virt < hi := by
  rcases mem_cons.1 (mem_of_getLast? he) with rfl | hmem
  · exact hc.pred.trans hlt
  · exact (hc.inside e hmem).2

lemma Cut.inForce_last (he : (p :: M).getLast? = some e) : inForce Block.virt (L ++ p :: (M ++ R)) (hi - 1) = some e := by
  obtain ⟨M', hM'⟩ := getLast?_eq_some_iff.1 he
  have hlist : L ++ p :: (M ++ R) = (L ++ M') ++ e :: R := by
    rw [← cons_append, hM']
    simp
  rw [hlist]
  refine inForce_cons_of_lt (le_sub_one_of_lt (hc.mem_last hlt he)) fun x hx => ?_
  have := hc.above x hx
  omega

lemma Cut.mem_virt_eq {s : Block w Extra} (hsorted : R.Pairwise fun b c => b.virt < c.virt) (hs : s ∈ L ++ p :: (M ++ R))
    (hv : s.virt = hi) : R.head? = some s := by
  have hmem : s ∈ R := by
    rcases mem_append.1 hs with hs | hs
    · have := hc.below s hs
      omega
    · rcases mem_cons.1 hs with rfl | hs
      · have := hc.pred
        omega
      · rcases mem_append.1 hs with hs | hs
        · have := hc.inside s hs
          omega
        · exact hs
  cases R with
  | nil => simp at hmem
  | cons r R =>
    rcases mem_cons.1 hmem with rfl | hmem
    · rfl
    · have hlt := (pairwise_cons.1 hsorted).1 s hmem
      have hge := hc.above r mem_cons_self
      omega

end

lemma TailFor.mapped (ht : TailFor A e hi R tail)
    (h : A.WellFormed (L ++ p :: (M ++ R))) (hc : Cut lo hi L p M R) (hlt : lo < hi)
    (he : (p :: M).getLast? = some e) (hmap : A.TailMapped (L ++ p :: (M ++ R)) hi)
    (hme : A.Mapped e) : ∀ t ∈ tail, A.Mapped t := by
  cases ht with
  | present => simp
  | added hne hv hcase =>
    intro t ht
    obtain rfl := mem_singleton.1 ht
    rcases hcase with ⟨hue, -⟩ | ⟨-, hphys, -⟩
    · exact absurd hue hme
    · rw [Mapped, hphys]
      refine hmap e (hc.inForce_last hlt he) hme fun b hb hvb => ?_
      have hlist : L ++ p :: (M ++ R) = (L ++ p :: M) ++ R := by simp
      have hsorted := h.sorted
      rw [hlist] at hsorted
      exact hne b (hc.mem_virt_eq hlt (pairwise_append.1 hsorted).2.1 hb hvb) hvb

variable {t : Block w Extra}

/-- The cut block and its rest agree on the addresses of the rest. -/
lemma TailFor.valueAt_eq (hv : t.virt = hi) (he : e.virt ≤ hi)
    (ht : A.Unmapped e ∧ A.Unmapped t ∨ A.Mapped e ∧ t.phys = A.advance e.phys (hi - e.virt) ∧ t.extraInfo = e.extraInfo)
    (hmap : A.Mapped e → A.Mapped t) (ha : hi ≤ a) : A.valueAt t a = A.valueAt e a := by
  rcases ht with ⟨hue, hut⟩ | ⟨hme, hphys, hextra⟩
  · rw [valueAt_of_unmapped hue, valueAt_of_unmapped hut]
  · rw [valueAt_of_mapped hme, valueAt_of_mapped (hmap hme), hphys, hextra, advance_advance, hv]
    congr 3
    omega

/-- **The part of the vector from the end of the range on.** -/
structure RestOf (A : AddressSpace w) (blocks : List (Block w Extra)) (hi : ℕ)
    (S : List (Block w Extra)) : Prop where
  sorted : S.Pairwise fun b c => b.virt < c.virt
  above : ∀ x ∈ S, hi ≤ x.virt
  merged : S.IsChain fun b c => A.Mapped b ∨ A.Mapped c
  last : ∀ b ∈ S.getLast?, A.Unmapped b
  value : ∀ a, hi ≤ a → A.translate blocks a = A.translate S a

lemma translate_eq_none (h : ∀ x ∈ S, a < x.virt) : A.translate S a = none := by
  have hnil := translate_of_lt (A := A) (L := []) h
  rwa [nil_append] at hnil

/-- **Exchange of the blocks of a range.** -/
lemma RestOf.splice {v : ℕ → Option (BitVec w × Extra)}
    (hS : RestOf A (L ++ p :: (M ++ R)) hi S) (h : A.WellFormed (L ++ p :: (M ++ R)))
    (hc : Cut lo hi L p M R) (hle : lo ≤ hi) (hY : ∀ y ∈ Y, lo ≤ y.virt ∧ y.virt < hi)
    (hsorted : Y.Pairwise fun b c => b.virt < c.virt)
    (hmerged : (p :: (Y ++ S)).IsChain fun b c => A.Mapped b ∨ A.Mapped c)
    (hlast : ∀ b ∈ (p :: (Y ++ S)).getLast?, A.Unmapped b)
    (hin : ∀ a, lo ≤ a → a < hi → A.translate (L ++ p :: Y) a = v a)
    (hend : ∀ a, hi ≤ a → (∀ x ∈ S, a < x.virt) → A.translate (L ++ p :: Y) a = none) :
    A.WellFormed (L ++ p :: (Y ++ S)) ∧
      ∀ a, A.translate (L ++ p :: (Y ++ S)) a =
        if lo ≤ a ∧ a < hi then v a else A.translate (L ++ p :: (M ++ R)) a := by
  constructor
  · refine h.exchange hc.below hc.pred ?_ ?_ hmerged hlast
    · intro x hx
      rcases mem_append.1 hx with hx | hx
      · exact (hY x hx).1
      · exact hle.trans (hS.above x hx)
    · refine pairwise_append.2 ⟨hsorted, hS.sorted, ?_⟩
      exact fun x hx y hy => (hY x hx).2.trans_le (hS.above y hy)
  · intro a
    have hassoc : L ++ p :: (Y ++ S) = (L ++ p :: Y) ++ S := by simp
    by_cases hlo : lo ≤ a
    · by_cases hhi : a < hi
      · rw [if_pos ⟨hlo, hhi⟩, ← hin a hlo hhi, hassoc, translate_of_lt fun x hx => hhi.trans_le (hS.above x hx)]
      · rw [if_neg (by omega), hS.value a (not_lt.1 hhi), hassoc]
        by_cases hex : ∃ x ∈ S, x.virt ≤ a
        · rw [translate, inForce_append_of_le hex, translate]
        · have hall : ∀ x ∈ S, a < x.virt := by simpa using hex
          rw [translate_of_lt hall, hend a (not_lt.1 hhi) hall, translate_eq_none hall]
    · -- below the range only the blocks up to `p` count
      have hlow : ∀ T : List (Block w Extra), (∀ x ∈ T, lo ≤ x.virt) →
          A.translate (L ++ p :: T) a = A.translate (L ++ [p]) a := by
        intro T hT
        have hcons : L ++ p :: T = (L ++ [p]) ++ T := by simp
        rw [hcons, translate_of_lt fun x hx => (not_le.1 hlo).trans_le (hT x hx)]
      rw [if_neg (by omega), hlow (Y ++ S), hlow (M ++ R)]
      · intro x hx
        rcases mem_append.1 hx with hx | hx
        · exact (hc.inside x hx).1
        · exact hle.trans (hc.above x hx)
      · intro x hx
        rcases mem_append.1 hx with hx | hx
        · exact (hY x hx).1
        · exact hle.trans (hS.above x hx)

lemma TailFor.restOf (ht : TailFor A e hi R tail)
    (h : A.WellFormed (L ++ p :: (M ++ R))) (hc : Cut lo hi L p M R) (hlt : lo < hi)
    (he : (p :: M).getLast? = some e) (hmap : A.TailMapped (L ++ p :: (M ++ R)) hi) :
    RestOf A (L ++ p :: (M ++ R)) hi (tail ++ R) := by
  have hlist : L ++ p :: (M ++ R) = (L ++ p :: M) ++ R := by simp
  have hsorted := h.sorted
  have hmerged := h.merged
  have hlast := h.last
  rw [hlist] at hsorted hmerged hlast
  obtain ⟨-, hR, -⟩ := pairwise_append.1 hsorted
  obtain ⟨-, hRmerged, hborder⟩ := isChain_append.1 hmerged
  have hend : ∀ y ∈ R.head?, A.Mapped e ∨ A.Mapped y := by
    refine fun y hy => hborder e ?_ y hy
    rw [getLast?_append_of_ne_nil _ (by simp), he]
    rfl
  cases ht with
  | present hr =>
    refine ⟨hR, hc.above, hRmerged, ?_, ?_⟩
    · intro b hb
      obtain ⟨b', hb', hub⟩ := hlast
      rw [getLast?_append_of_ne_nil _ (by simp)] at hb'
      exact Option.some.inj (hb'.symm.trans hb) ▸ hub
    · intro a ha
      rw [hlist, translate, inForce_append_of_le ⟨_, mem_cons_self, hr.le.trans ha⟩]
      rfl
  | added hne hv hcase =>
    rename_i t
    have hlt' : ∀ x ∈ R, t.virt < x.virt := by
      intro x hx
      cases R with
      | nil => simp at hx
      | cons r R =>
        have hr := hne r rfl
        have habove := hc.above r mem_cons_self
        rcases mem_cons.1 hx with rfl | hx
        · omega
        · have := (pairwise_cons.1 hR).1 x hx
          omega
    have hmapped : A.Mapped e → A.Mapped t := fun hme =>
      (TailFor.added hne hv hcase).mapped h hc hlt he hmap hme t (by simp)
    refine ⟨pairwise_cons.2 ⟨hlt', hR⟩, ?_, ?_, ?_, ?_⟩
    · intro x hx
      rcases mem_cons.1 hx with rfl | hx
      · exact hv.ge
      · exact hc.above x hx
    · refine isChain_cons.2 ⟨fun y hy => ?_, hRmerged⟩
      exact (hend y hy).imp_left hmapped
    · intro b hb
      obtain ⟨b', hb', hub⟩ := hlast
      cases R with
      | nil =>
        rw [append_nil, getLast?_append_of_ne_nil _ (by simp), he] at hb'
        obtain rfl := Option.some.inj hb'
        obtain rfl : t = b := by simpa using hb
        rcases hcase with ⟨-, hut⟩ | ⟨hme, -⟩
        · exact hut
        · exact absurd hub hme
      | cons r R =>
        rw [getLast?_append_of_ne_nil _ (by simp)] at hb hb'
        exact Option.some.inj (hb'.symm.trans hb) ▸ hub
    · intro a ha
      obtain ⟨M', hM'⟩ := getLast?_eq_some_iff.1 he
      by_cases hex : ∃ x ∈ R, x.virt ≤ a
      · rw [hlist, translate, inForce_append_of_le hex, translate, inForce_append_of_le hex]
      · have hall : ∀ x ∈ R, a < x.virt := by simpa using hex
        have hone := translate_concat (A := A) (L := []) (hv.le.trans ha)
        rw [hlist, translate_of_lt hall, translate_of_lt hall, hM', ← append_assoc,
          translate_concat ((hc.mem_last hlt he).le.trans ha)]
        exact (hone.trans (TailFor.valueAt_eq hv (hc.mem_last hlt he).le hcase hmapped ha)).symm

lemma mapStart_eq (hp : p.virt < lo) (hM : ∀ x ∈ M, lo ≤ x.virt ∧ x.virt < hi) (ht : t.virt = hi)
    (hn : L.length + 1 + M.length = n) (phys : BitVec w) (extra : Extra) :
    mapStart (L ++ p :: (M ++ t :: R)) lo hi phys extra n = .ok (L ++ p :: ⟨lo, phys, extra⟩ :: t :: R) := by
  rw [mapStart, walkToStartSuccessor_eq hp (fun x hx => (hM x hx).1) hn]
  show (deref _ _ >>= _) = _
  cases M with
  | nil =>
    have hlist : L ++ p :: ([] ++ t :: R) = (L ++ [p]) ++ t :: R := by simp
    rw [hlist, deref_at (by simp)]
    show (if t.virt > hi then _ else _) = _
    rw [if_neg (by omega), if_pos ht, insertAt_at (by simp)]
    simp
  | cons m M =>
    have hm := hM m mem_cons_self
    have hlist : L ++ p :: (m :: M ++ t :: R) = (L ++ [p]) ++ m :: (M ++ t :: R) := by simp
    rw [hlist, deref_at (by simp)]
    show (if m.virt > hi then _ else _) = _
    have hassoc : (L ++ [p]) ++ m :: (M ++ t :: R) = (L ++ [p, m]) ++ (M ++ t :: R) := by simp
    rw [if_neg (by omega), if_neg (by omega), hassoc, erase_at (by simp) (by simp at hn ⊢; omega)]
    have hback : (L ++ [p, m]) ++ t :: R = (L ++ [p]) ++ m :: t :: R := by simp
    rw [hback, set_at (by simp)]
    simp

lemma Cut.hasStart_iff (hc : Cut lo hi L p M R) (hle : lo ≤ hi) (hT : ∀ x ∈ T, lo ≤ x.virt)
    (habove : ∀ x, n ≤ x → (HasStart T x ↔ HasStart R x)) (hn : hi ≤ n)
    (hx : x < lo ∨ n ≤ x) :
    HasStart (L ++ p :: T) x ↔ HasStart (L ++ p :: (M ++ R)) x := by
  rcases hx with hx | hx
  · have hnew : ¬ HasStart T x := not_hasStart fun b hb hv => by
      have := hT b hb
      omega
    have hM : ¬ HasStart M x := not_hasStart fun b hb hv => by
      have := hc.inside b hb
      omega
    have hR : ¬ HasStart R x := not_hasStart fun b hb hv => by
      have := hc.above b hb
      omega
    simp only [hasStart_append, hasStart_cons, hnew, hM, hR, or_false]
  · have hM : ¬ HasStart M x := not_hasStart fun b hb hv => by
      have := hc.inside b hb
      omega
    simp only [hasStart_append, hasStart_cons, habove x hx, hM, false_or]

lemma TailFor.hasStart_iff (ht : TailFor A e hi R tail) (hY : ∀ y ∈ Y, y.virt < hi) (hx : hi + 1 ≤ x) :
    HasStart (Y ++ (tail ++ R)) x ↔ HasStart R x := by
  have hnot : ¬ HasStart Y x := not_hasStart fun b hb hv => by
    have := hY b hb
    omega
  have htail : ¬ HasStart tail x := by
    cases ht with
    | present => simp [HasStart]
    | added _ hv _ =>
      refine not_hasStart fun b hb hvb => ?_
      obtain rfl := mem_singleton.1 hb
      omega
  simp only [hasStart_append, hnot, htail, false_or]

/-! ## `MapLocked` -/

section

variable [Inhabited Extra]

variable {virt size : ℕ}

lemma mapLocked_eq (hc : Cut virt (virt + size) L p M R)
    (hlimit : virt + size ≤ A.vaLimit) (he : (p :: M).getLast? = some e)
    (hlast : R = [] → A.Unmapped e) (phys : BitVec w) (extra : Extra) :
    ∃ tail, mapLocked A (L ++ p :: (M ++ R)) virt phys size extra =
      .ok (L ++ p :: ⟨virt, phys, extra⟩ :: (tail ++ R)) ∧ TailFor A e (virt + size) R tail := by
  have hmod : (virt + size) % 2 ^ A.vaTypeBits = virt + size :=
    mod_eq_of_lt (hlimit.trans_lt A.vaLimit_lt)
  have hbound := hc.lowerBound_eq (le_add_right virt size)
  simp only [mapLocked, hmod, hbound]
  rw [if_neg (by omega), if_neg (by omega)]
  rcases eq_nil_or_concat M with rfl | ⟨M, e', rfl⟩
  · obtain rfl : p = e := by simpa using he
    have hpred : L ++ p :: ([] ++ R) = L ++ p :: R := rfl
    have hidx : L.length + 1 + ([] : List (Block w Extra)).length - 1 = L.length := by simp
    rw [hidx, hpred, deref_at rfl]
    have hnot : ¬ (L.length ≠ 0 ∧ p.virt ≥ virt) := fun h => absurd hc.pred (by omega)
    have hassoc : L ++ p :: R = (L ++ [p]) ++ R := by simp
    cases R with
    | nil =>
      refine ⟨[⟨virt + size, A.unmappedPa, default⟩], ?_, .added (by simp) rfl
        (.inl ⟨hlast rfl, rfl⟩)⟩
      show (if _ then _ else _) = _
      rw [if_neg (by simp), if_neg hnot, hassoc, insertAt_at (by simp)]
      simp
    | cons r R =>
      by_cases hr : r.virt = virt + size
      · refine ⟨[], ?_, .present hr⟩
        show (if _ then _ else _) = _
        rw [if_pos (by simp), hassoc, deref_at (by simp)]
        show (if _ then _ else _) = _
        rw [if_neg (not_not.2 hr)]
        rw [← hassoc]
        exact mapStart_eq hc.pred hc.inside hr rfl phys extra
      · refine ⟨_, ?_, .rest (by simpa using hr)⟩
        show (if _ then _ else _) = _
        rw [if_pos (by simp), hassoc, deref_at (by simp)]
        show (if _ then _ else _) = _
        rw [if_pos hr, if_neg hnot, insertAt_at (by simp)]
        simp
  · rw [concat_eq_append] at he hc ⊢
    obtain rfl : e' = e := by simpa [getLast?_cons] using he
    have hinside := hc.inside e' (by simp)
    have hM : ∀ x ∈ M, virt ≤ x.virt ∧ x.virt < virt + size := fun x hx => hc.inside x (by simp [hx])
    have hidx : L.length + 1 + (M ++ [e']).length - 1 = (L ++ p :: M).length := by simp; omega
    have hassoc : L ++ p :: ((M ++ [e']) ++ R) = (L ++ p :: M) ++ e' :: R := by simp
    have hreuse : (L ++ p :: M).length ≠ 0 ∧ e'.virt ≥ virt := ⟨by simp, hinside.1⟩
    rw [hidx, hassoc, deref_at rfl]
    have hmove : ∀ t : Block w Extra, t.virt = virt + size →
        mapStart (((L ++ p :: M) ++ e' :: R).set (L ++ p :: M).length t) virt (virt + size) phys
          extra (L ++ p :: M).length = .ok (L ++ p :: ⟨virt, phys, extra⟩ :: t :: R) := by
      intro t ht
      rw [set_at rfl, append_assoc, cons_append]
      exact mapStart_eq hc.pred hM ht (by simp; omega) phys extra
    cases R with
    | nil =>
      refine ⟨[{ e' with virt := virt + size }], ?_, .added (by simp) rfl
        (.inl ⟨hlast rfl, hlast rfl⟩)⟩
      show (if _ then _ else _) = _
      rw [if_neg (by simp; omega), if_pos hreuse, hmove _ rfl]
      rfl
    | cons r R =>
      have hassoc' : (L ++ p :: M) ++ e' :: r :: R = (L ++ p :: (M ++ [e'])) ++ r :: R := by simp
      have hne : L.length + 1 + (M ++ [e']).length ≠ ((L ++ p :: M) ++ e' :: r :: R).length := by
        simp
        omega
      by_cases hr : r.virt = virt + size
      · refine ⟨[], ?_, .present hr⟩
        show (if _ then _ else _) = _
        rw [if_pos hne, hassoc', deref_at (by simp; omega)]
        show (if _ then _ else _) = _
        rw [if_neg (not_not.2 hr), append_assoc, cons_append]
        exact mapStart_eq hc.pred hc.inside hr rfl phys extra
      · refine ⟨_, ?_, .rest (by simpa using hr)⟩
        show (if _ then _ else _) = _
        rw [if_pos hne, hassoc', deref_at (by simp; omega), ← hassoc']
        show (if _ then _ else _) = _
        rw [if_pos hr, if_pos hreuse]
        exact hmove _ rfl

/-- **`MapLocked`** puts the mapping over the range and changes nothing else. -/
theorem mapLocked_spec (h : A.WellFormed blocks) {phys : BitVec w}
    (hvirt : 0 < virt) (hsize : 0 < size) (hlimit : virt + size ≤ A.vaLimit)
    (hphys : phys ≠ A.unmappedPa) (hmap : A.TailMapped blocks (virt + size)) (extra : Extra) :
    ∃ blocks', mapLocked A blocks virt phys size extra = .ok blocks' ∧ A.WellFormed blocks' ∧
      (∀ a, A.translate blocks' a =
        if virt ≤ a ∧ a < virt + size then some (A.advance phys (a - virt), extra)
        else A.translate blocks a) ∧
      (∀ x, x < virt ∨ virt + size < x → (HasStart blocks' x ↔ HasStart blocks x)) ∧
      HasStart blocks' virt ∧ HasStart blocks' (virt + size) ∧
      ∀ x, virt < x → x < virt + size → ¬ HasStart blocks' x := by
  have hlt : virt < virt + size := Nat.lt_add_of_pos_right hsize
  obtain ⟨L, p, M, R, rfl, hc⟩ := h.exists_cut hvirt hlt.le
  obtain ⟨e, he⟩ : ∃ e, (p :: M).getLast? = some e := ⟨_, getLast?_eq_some_getLast (by simp)⟩
  have hend : R = [] → A.Unmapped e := by
    rintro rfl
    obtain ⟨b, hb, hub⟩ := h.last
    rw [append_nil, getLast?_append_of_ne_nil _ (by simp), he] at hb
    exact Option.some.inj hb ▸ hub
  obtain ⟨tail, hcall, htail⟩ := mapLocked_eq hc hlimit he hend phys extra
  have hrest := htail.restOf h hc hlt he hmap
  set new : Block w Extra := ⟨virt, phys, extra⟩ with hnew
  have hnewIn : ∀ y ∈ [new], virt ≤ y.virt ∧ y.virt < virt + size := by
    intro y hy
    obtain rfl := mem_singleton.1 hy
    exact ⟨le_rfl, hlt⟩
  suffices hsplice : A.WellFormed (L ++ p :: ([new] ++ (tail ++ R))) ∧ _ by
    refine ⟨_, hcall, hsplice.1, hsplice.2, ?_, ⟨new, by simp, rfl⟩, ?_, ?_⟩
    · intro x hx
      refine hc.hasStart_iff (T := [new] ++ (tail ++ R)) hlt.le ?_
        (fun x hx => htail.hasStart_iff (fun y hy => (hnewIn y hy).2) hx) (le_succ _) (by omega)
      intro y hy
      rcases mem_append.1 hy with hy | hy
      · exact (hnewIn y hy).1
      · exact hlt.le.trans (hrest.above y hy)
    · obtain ⟨x, S, hS, hx⟩ := htail.append_eq_cons
      exact ⟨x, by simp [hS], hx⟩
    · intro x hlo hhi
      refine not_hasStart fun b hb hv => ?_
      simp only [mem_append, mem_cons] at hb
      rcases hb with hb | rfl | rfl | hb
      · have := hc.below b hb
        omega
      · have := hc.pred
        omega
      · exact absurd hv hlo.ne
      · have := hrest.above b (mem_append.2 hb)
        omega
  refine hrest.splice (Y := [new]) h hc hlt.le hnewIn (by simp) ?_ ?_ ?_ ?_
  · refine isChain_cons_cons.2 ⟨.inr hphys, isChain_cons.2 ⟨?_, hrest.merged⟩⟩
    exact fun y _ => .inl hphys
  · intro b hb
    refine hrest.last b ?_
    obtain ⟨x, S, hS, -⟩ := htail.append_eq_cons
    rw [hS] at hb ⊢
    simpa [getLast?_cons] using hb
  · intro a hlo hhi
    have hlist : L ++ [p, new] = (L ++ [p]) ++ [new] := by simp
    rw [hlist, translate_concat hlo, valueAt_of_mapped (show A.Mapped new from hphys)]
  · intro a ha hall
    obtain ⟨x, S, hS, hx⟩ := htail.append_eq_cons
    have := hall x (by simp [hS])
    omega

/-! ## `UnmapLocked` -/

/-- **The condition for `UnmapLocked`.**  The last block `p` below the range and the last one `e` below
its end decide.

* If `p` is mapped, the blocks between `p` and the unmapped block that takes over the range must not be
  missing: the assertion on contiguous unmapped regions takes `p` for an unmapped one.
* If `p` is unmapped and `e` is not, `e` must go with the blocks of the range or be the only one. -/
def UnmapMeets (A : AddressSpace w) (blocks : List (Block w Extra)) (virt virtEnd : ℕ) : Prop :=
  ∀ p ∈ inForce Block.virt blocks (virt - 1), ∀ e ∈ inForce Block.virt blocks (virtEnd - 1),
    (A.Mapped p → ¬ (blocks.filter (fun b => virt ≤ b.virt ∧ b.virt < virtEnd) = [e] ∧ virt < e.virt ∧ A.Unmapped e) ∧
      ¬ (blocks.filter (fun b => virt ≤ b.virt ∧ b.virt < virtEnd) = [] ∧
        ∃ s ∈ blocks, s.virt = virtEnd ∧ A.Unmapped s)) ∧
    (A.Unmapped p → A.Mapped e →
      (∃ s ∈ blocks, s.virt = virtEnd ∧ A.Unmapped s) ∨
      (blocks.filter (fun b => virt ≤ b.virt ∧ b.virt < virtEnd) = [e] ∧ ∀ s ∈ blocks, s.virt ≠ virtEnd))

omit [Inhabited Extra] in
instance [DecidableEq Extra] (virt virtEnd : ℕ) : Decidable (A.UnmapMeets blocks virt virtEnd) :=
  inferInstanceAs (Decidable (∀ p ∈ inForce Block.virt blocks (virt - 1), ∀ e ∈ _, _))

omit [Inhabited Extra] in
lemma Cut.filter_inside (hc : Cut lo hi L p M R) :
    (L ++ p :: (M ++ R)).filter (fun b => lo ≤ b.virt ∧ b.virt < hi) = M := by
  have hL : L.filter (fun b => lo ≤ b.virt ∧ b.virt < hi) = [] := by
    rw [filter_eq_nil_iff]
    intro x hx
    have := hc.below x hx
    simp
    omega
  have hM : M.filter (fun b => lo ≤ b.virt ∧ b.virt < hi) = M := by
    rw [filter_eq_self]
    intro x hx
    simpa using hc.inside x hx
  have hR : R.filter (fun b => lo ≤ b.virt ∧ b.virt < hi) = [] := by
    rw [filter_eq_nil_iff]
    intro x hx
    have := hc.above x hx
    simp
    omega
  have hp := hc.pred
  rw [filter_append, hL, filter_cons_of_neg (by simp; omega), filter_append, hM, hR]
  simp

omit [Inhabited Extra] in
/-- The new blocks of an unmapped range. -/
def UnmapHead (A : AddressSpace w) (p : Block w Extra) (lo : ℕ) (Y : List (Block w Extra)) : Prop :=
  A.Unmapped p ∧ Y = [] ∨ A.Mapped p ∧ ∃ b, Y = [b] ∧ b.virt = lo ∧ A.Unmapped b

omit [Inhabited Extra] in
lemma UnmapHead.mem (hY : A.UnmapHead p lo Y) : ∀ y ∈ Y, y.virt = lo := by
  rcases hY with ⟨-, rfl⟩ | ⟨-, b, rfl, hb, -⟩
  · simp
  · simpa using hb

omit [Inhabited Extra] in
/-- **The range is unmapped**: behind an unmapped `p` nothing is needed, else one unmapped block. -/
lemma RestOf.unmapped (hS : RestOf A (L ++ p :: (M ++ R)) hi S)
    (h : A.WellFormed (L ++ p :: (M ++ R))) (hc : Cut lo hi L p M R) (hlt : lo < hi)
    (hhead : ∀ s ∈ S.head?, A.Mapped s)
    (hY : A.UnmapHead p lo Y) :
    A.WellFormed (L ++ p :: (Y ++ S)) ∧
      ∀ a, A.translate (L ++ p :: (Y ++ S)) a =
        if lo ≤ a ∧ a < hi then none else A.translate (L ++ p :: (M ++ R)) a := by
  rcases hY with ⟨hup, rfl⟩ | ⟨hmp, b, rfl, hb, hub⟩
  · have hnone : ∀ a, lo ≤ a → A.translate (L ++ [p]) a = none := fun a ha => by
      rw [translate_concat (hc.pred.le.trans ha), valueAt_of_unmapped hup]
    refine hS.splice (Y := []) (v := fun _ => none) h hc hlt.le (by simp) (by simp) ?_ ?_
      (fun a ha _ => hnone a ha) (fun a ha _ => hnone a (hlt.le.trans ha))
    · exact isChain_cons.2 ⟨fun y hy => .inr (hhead y hy), hS.merged⟩
    · intro c hc
      cases S with
      | nil => exact (by simpa using hc : p = c) ▸ hup
      | cons s S => exact hS.last c (by simpa [getLast?_cons] using hc)
  · have hnone : ∀ a, lo ≤ a → A.translate (L ++ [p, b]) a = none := fun a ha => by
      have hlist : L ++ [p, b] = (L ++ [p]) ++ [b] := by simp
      rw [hlist, translate_concat (hb.le.trans ha), valueAt_of_unmapped hub]
    refine hS.splice (Y := [b]) (v := fun _ => none) h hc hlt.le (by simp [hb, hlt]) (by simp) ?_ ?_
      (fun a ha _ => hnone a ha) (fun a ha _ => hnone a (hlt.le.trans ha))
    · refine isChain_cons_cons.2 ⟨.inl hmp, ?_⟩
      exact isChain_cons.2 ⟨fun y hy => .inr (hhead y hy), hS.merged⟩
    · intro c hc
      cases S with
      | nil => exact (by simpa using hc : b = c) ▸ hub
      | cons s S => exact hS.last c (by simpa [getLast?_cons] using hc)

omit [Inhabited Extra] in
lemma eraseBlocksWithEndUnmapped_eq {u : Block w Extra} {n : ℕ}
    (hp : p.virt < lo) (hM : ∀ x ∈ M, lo ≤ x.virt) (hu : lo ≤ u.virt)
    (hn : L.length + 1 + M.length = n) (hS : ∀ s ∈ S.head?, A.Mapped s) (huu : A.Unmapped u)
    (hne : A.Mapped p → M ≠ []) :
    ∃ Y, eraseBlocksWithEndUnmapped A (L ++ p :: (M ++ u :: S)) lo n = .ok (L ++ p :: (Y ++ S)) ∧
      A.UnmapHead p lo Y := by
  have hlist : L ++ p :: (M ++ u :: S) = L ++ p :: ((M ++ [u]) ++ S) := by simp
  have hwalk : walkBackToPredecessor (L ++ p :: (M ++ u :: S)) lo n = .ok L.length := by
    rw [hlist]
    refine walkBackToPredecessor_eq hp ?_ (by simp; omega)
    intro x hx
    rcases mem_append.1 hx with hx | hx
    · exact hM x hx
    · obtain rfl := mem_singleton.1 hx
      exact hu
  have hlast : deref (L ++ p :: (M ++ u :: S)) n = .ok u := by
    have hassoc : L ++ p :: (M ++ u :: S) = (L ++ p :: M) ++ u :: S := by simp
    rw [hassoc, deref_at (by simp; omega)]
  rw [eraseBlocksWithEndUnmapped, hwalk]
  show ∃ Y, (deref _ _ >>= _) = _ ∧ _
  rw [deref_at rfl]
  show ∃ Y, (deref _ _ >>= _) = _ ∧ _
  rw [hlast]
  by_cases hup : A.Unmapped p
  · refine ⟨[], ?_, .inl ⟨hup, rfl⟩⟩
    show (if A.Unmapped p then _ else _) = _
    have herase : erase (L ++ p :: (M ++ u :: S)) (L.length + 1) (n + 1) = L ++ p :: S := by
      have hassoc : L ++ p :: (M ++ u :: S) = (L ++ [p]) ++ ((M ++ [u]) ++ S) := by simp
      rw [hassoc, erase_at (by simp) (by simp; omega)]
      simp
    rw [if_pos hup, herase]
    cases S with
    | nil => rw [if_neg (by simp; omega)]; rfl
    | cons s S =>
      have hassoc : L ++ p :: (M ++ u :: s :: S) = (L ++ p :: (M ++ [u])) ++ s :: S := by simp
      rw [if_pos (by simp; omega), hassoc, deref_at (by simp; omega)]
      show (if n + 1 = L.length + 1 ∨ A.Unmapped s then _ else _) = _
      rw [if_neg]
      · rfl
      · rintro (hbad | hbad)
        · omega
        · exact hS s rfl hbad
  · refine ⟨[{ u with virt := lo }], ?_, .inr ⟨hup, _, rfl, rfl, huu⟩⟩
    show (if A.Unmapped p then _ else _) = _
    have hpos : 0 < M.length := length_pos_of_ne_nil (hne hup)
    have hassoc : L ++ p :: (M ++ u :: S) = (L ++ p :: M) ++ u :: S := by simp
    rw [if_neg hup, hassoc]
    simp only [set_at (l := L ++ p :: M) (n := n) (by simp; omega)]
    rw [if_neg (by omega)]
    have hback : (L ++ p :: M) ++ { u with virt := lo } :: S = (L ++ [p]) ++ (M ++ { u with virt := lo } :: S) := by simp
    rw [hback, erase_at (by simp) (by simp; omega)]
    simp

lemma unmapStart_eq {t : Block w Extra} {k n : ℕ} (hp : p.virt < lo)
    (hM : ∀ x ∈ M, lo ≤ x.virt ∧ x.virt < hi) (ht : t.virt = hi) (hlt : lo < hi)
    (hn : L.length + 1 + M.length = n) (hmeets : A.Unmapped p → M = []) :
    ∃ Y, unmapStart A (L ++ p :: (M ++ t :: S)) lo hi k n = .ok (L ++ p :: (Y ++ t :: S)) ∧
      A.UnmapHead p lo Y := by
  have hlist : L ++ p :: (M ++ t :: S) = L ++ p :: ((M ++ [t]) ++ S) := by simp
  have hwalk : walkBackToPredecessor (L ++ p :: (M ++ t :: S)) lo n = .ok L.length := by
    rw [hlist]
    refine walkBackToPredecessor_eq hp ?_ (by simp; omega)
    intro x hx
    rcases mem_append.1 hx with hx | hx
    · exact (hM x hx).1
    · obtain rfl := mem_singleton.1 hx
      omega
  rw [unmapStart, hwalk]
  show ∃ Y, (deref _ _ >>= _) = _ ∧ _
  rw [deref_at rfl]
  show ∃ Y, (deref _ _ >>= _) = _ ∧ _
  cases M with
  | nil =>
    have hassoc : L ++ p :: ([] ++ t :: S) = (L ++ [p]) ++ t :: S := by simp
    rw [hassoc, deref_at (by simp)]
    by_cases hup : A.Unmapped p
    · refine ⟨[], ?_, .inl ⟨hup, rfl⟩⟩
      show (if t.virt > hi then _ else _) = _
      rw [if_neg (by omega), if_pos ht, if_neg (show ¬ A.Mapped p from not_not.2 hup)]
      simp
    · refine ⟨[⟨lo, A.unmappedPa, default⟩], ?_, .inr ⟨hup, _, rfl, rfl, rfl⟩⟩
      show (if t.virt > hi then _ else _) = _
      rw [if_neg (by omega), if_pos ht, if_pos (show A.Mapped p from hup), insertAt_at (by simp)]
      simp
  | cons m M =>
    have hup : ¬ A.Unmapped p := fun hup => by simpa using hmeets hup
    have hm := hM m mem_cons_self
    have hassoc : L ++ p :: (m :: M ++ t :: S) = (L ++ [p]) ++ m :: (M ++ t :: S) := by simp
    refine ⟨[{ m with virt := lo, phys := A.unmappedPa }], ?_, .inr ⟨hup, _, rfl, rfl, rfl⟩⟩
    rw [hassoc, deref_at (by simp)]
    show (if m.virt > hi then _ else _) = _
    have hback : (L ++ [p]) ++ m :: (M ++ t :: S) = (L ++ [p, m]) ++ (M ++ t :: S) := by simp
    rw [if_neg (by omega), if_neg (by omega), if_neg hup, hback, erase_at (by simp) (by simp at hn ⊢; omega)]
    have hagain : (L ++ [p, m]) ++ t :: S = (L ++ [p]) ++ m :: t :: S := by simp
    rw [hagain, set_at (by simp)]
    simp

omit [Inhabited Extra] in
/-- The blocks above the range, where an unmapped block lies over its end. -/
lemma WellFormed.restOf_unmapped (h : A.WellFormed (L ++ p :: (M ++ R))) (hc : Cut lo hi L p M R)
    (hlt : lo < hi) (he : (p :: M).getLast? = some e) (hue : A.Unmapped e) :
    RestOf A (L ++ p :: (M ++ R)) hi R ∧ ∀ s ∈ R.head?, A.Mapped s := by
  have hlist : L ++ p :: (M ++ R) = (L ++ p :: M) ++ R := by simp
  have hsorted := h.sorted
  have hmerged := h.merged
  have hlast := h.last
  rw [hlist] at hsorted hmerged hlast ⊢
  obtain ⟨-, hR, -⟩ := pairwise_append.1 hsorted
  obtain ⟨-, hRmerged, hborder⟩ := isChain_append.1 hmerged
  have hpM : (L ++ p :: M).getLast? = some e := by
    rw [getLast?_append_of_ne_nil _ (by simp), he]
  refine ⟨⟨hR, hc.above, hRmerged, ?_, ?_⟩, ?_⟩
  · intro b hb
    obtain ⟨b', hb', hub⟩ := hlast
    have hne : R ≠ [] := by
      rintro rfl
      simp at hb
    rw [getLast?_append_of_ne_nil _ hne] at hb'
    exact Option.some.inj (hb'.symm.trans hb) ▸ hub
  · intro a ha
    by_cases hex : ∃ x ∈ R, x.virt ≤ a
    · rw [translate, inForce_append_of_le hex, translate]
    · have hall : ∀ x ∈ R, a < x.virt := by simpa using hex
      obtain ⟨T, hT⟩ := getLast?_eq_some_iff.1 hpM
      rw [translate_of_lt hall, translate_eq_none hall, hT,
        translate_concat ((hc.mem_last hlt he).le.trans ha), valueAt_of_unmapped hue]
  · intro s hs
    rcases hborder e hpM s hs with hbad | hms
    · exact absurd hue hbad
    · exact hms

omit [Inhabited Extra] in
lemma unmapLocked_of_unmapped (h : A.WellFormed (L ++ p :: (M ++ R))) (hc : Cut lo hi L p M R)
    (hlt : lo < hi) (he : (p :: M).getLast? = some e) (hue : A.Unmapped e)
    (hne : A.Mapped p → lo < e.virt → M ≠ [e]) :
    ∃ blocks', (if e.virt > lo then
        eraseBlocksWithEndUnmapped A (L ++ p :: (M ++ R)) lo (L.length + M.length)
        else .ok (L ++ p :: (M ++ R))) = .ok blocks' ∧ A.WellFormed blocks' ∧
      (∀ a, A.translate blocks' a =
        if lo ≤ a ∧ a < hi then none else A.translate (L ++ p :: (M ++ R)) a) ∧
      ∀ x, x < lo ∨ hi ≤ x → (HasStart blocks' x ↔ HasStart (L ++ p :: (M ++ R)) x) := by
  obtain ⟨hrest, hhead⟩ := h.restOf_unmapped hc hlt he hue
  by_cases hgt : e.virt > lo
  · rw [if_pos hgt]
    rcases eq_nil_or_concat M with rfl | ⟨M, e', rfl⟩
    · obtain rfl : p = e := by simpa using he
      exact absurd hc.pred (by omega)
    · rw [concat_eq_append] at *
      obtain rfl : e' = e := by simpa [getLast?_cons] using he
      have hM : ∀ x ∈ M, lo ≤ x.virt := fun x hx => (hc.inside x (by simp [hx])).1
      have hnil : A.Mapped p → M ≠ [] := by
        rintro hmp rfl
        exact hne hmp hgt rfl
      obtain ⟨Y, hcall, hY⟩ := eraseBlocksWithEndUnmapped_eq (L := L) (n := L.length + 1 + M.length)
        hc.pred hM hgt.le rfl hhead hue hnil
      have hlist : L ++ p :: ((M ++ [e']) ++ R) = L ++ p :: (M ++ e' :: R) := by simp
      have hidx : L.length + (M ++ [e']).length = L.length + 1 + M.length := by simp; omega
      obtain ⟨hwf, htranslate⟩ := hrest.unmapped h hc hlt hhead hY
      refine ⟨L ++ p :: (Y ++ R), by rw [hlist, hidx, hcall], hwf, htranslate, fun x hx => ?_⟩
      refine hc.hasStart_iff (T := Y ++ R) hlt.le ?_ ?_ le_rfl hx
      · intro y hy
        rcases mem_append.1 hy with hy | hy
        · exact (hY.mem y hy).ge
        · exact hlt.le.trans (hc.above y hy)
      · intro x hx
        have hnot : ¬ HasStart Y x := not_hasStart fun y hy hv => by
          have := hY.mem y hy
          omega
        simp only [hasStart_append, hnot, false_or]
  · -- the range lies in `e`
    rw [if_neg hgt]
    refine ⟨_, rfl, h, fun a => ?_, fun _ _ => Iff.rfl⟩
    split_ifs with ha
    · have hlist : L ++ p :: (M ++ R) = (L ++ p :: M) ++ R := by simp
      obtain ⟨T, hT⟩ := getLast?_eq_some_iff.1 he
      rw [hlist, translate_of_lt fun x hx => ha.2.trans_le (hc.above x hx), hT, ← append_assoc,
        translate_concat ((not_lt.1 hgt).trans ha.1), valueAt_of_unmapped hue]
    · rfl

variable {r : Block w Extra}

omit [Inhabited Extra] in
/-- An unmapped block starts at the end of the range: it is as good as inside. -/
lemma unmapLocked_of_unmapped_successor
    (h : A.WellFormed (L ++ p :: (M ++ r :: R))) (hc : Cut lo hi L p M (r :: R)) (hlt : lo < hi)
    (hr : r.virt = hi) (hur : A.Unmapped r) (hne : A.Mapped p → M ≠ []) :
    ∃ blocks', eraseBlocksWithEndUnmapped A (L ++ p :: (M ++ r :: R)) lo
        (L.length + 1 + M.length) = .ok blocks' ∧ A.WellFormed blocks' ∧
      (∀ a, A.translate blocks' a =
        if lo ≤ a ∧ a < hi then none else A.translate (L ++ p :: (M ++ r :: R)) a) ∧
      ∀ x, x < lo ∨ hi < x → (HasStart blocks' x ↔ HasStart (L ++ p :: (M ++ r :: R)) x) := by
  have hlist : L ++ p :: (M ++ r :: R) = L ++ p :: ((M ++ [r]) ++ R) := by simp
  have hlist' : L ++ p :: (M ++ r :: R) = (L ++ p :: M) ++ r :: R := by simp
  have hsorted := h.sorted
  rw [hlist'] at hsorted
  have hR := pairwise_cons.1 (pairwise_append.1 hsorted).2.1
  have hc' : Cut lo (hi + 1) L p (M ++ [r]) R := by
    refine ⟨hc.below, hc.pred, ?_, ?_⟩
    · intro x hx
      rcases mem_append.1 hx with hx | hx
      · have := hc.inside x hx
        omega
      · obtain rfl := mem_singleton.1 hx
        omega
    · intro x hx
      have := hR.1 x hx
      omega
  have hlast : (p :: (M ++ [r])).getLast? = some r := by simp [getLast?_cons]
  have hwf := h
  rw [hlist] at hwf
  obtain ⟨blocks', hcall, hwf', htranslate, hstart⟩ := unmapLocked_of_unmapped hwf hc' (by omega) hlast hur
    (fun hmp _ hM => hne hmp (by simpa using hM))
  rw [if_pos (by omega), ← hlist] at hcall
  have hidx : L.length + (M ++ [r]).length = L.length + 1 + M.length := by simp; omega
  refine ⟨blocks', by rw [← hidx, hcall], hwf', fun a => ?_, fun x hx => by
    rw [hlist]
    exact hstart x (by omega)⟩
  rw [htranslate a, ← hlist]
  by_cases ha : a = hi
  · -- at the end of the range `r` already says that
    subst ha
    have hnone : A.translate (L ++ p :: (M ++ r :: R)) a = none := by
      rw [hlist', translate, inForce_cons_of_lt hr.le fun x hx => hr ▸ hR.1 x hx]
      exact valueAt_of_unmapped hur a
    rw [hnone, ite_self, ite_self]
  · exact if_congr (by omega) rfl rfl

lemma unmapLocked_of_mapped (h : A.WellFormed (L ++ p :: (M ++ r :: R)))
    (hc : Cut lo hi L p M (r :: R)) (hlt : lo < hi) (he : (p :: M).getLast? = some e)
    (hme : A.Mapped e) (hmap : A.TailMapped (L ++ p :: (M ++ r :: R)) hi)
    (hr : r.virt = hi → A.Mapped r)
    (hmeets : A.Unmapped p → M = [e] ∧ r.virt ≠ hi) :
    ∃ blocks',
      (if r.virt ≠ hi then
        if e.virt ≥ lo then
          unmapStart A ((L ++ p :: (M ++ r :: R)).set (L.length + M.length)
            ⟨hi, A.advance e.phys (hi - e.virt), e.extraInfo⟩) lo hi (L.length + M.length - 1)
            (L.length + M.length)
        else
          .ok (insertAt (L ++ p :: (M ++ r :: R)) (L.length + 1 + M.length)
            [⟨lo, A.unmappedPa, default⟩, ⟨hi, A.advance e.phys (hi - e.virt), e.extraInfo⟩])
      else unmapStart A (L ++ p :: (M ++ r :: R)) lo hi (L.length + M.length)
        (L.length + 1 + M.length)) = .ok blocks' ∧ A.WellFormed blocks' ∧
      (∀ a, A.translate blocks' a =
        if lo ≤ a ∧ a < hi then none else A.translate (L ++ p :: (M ++ r :: R)) a) ∧
      ∀ x, x < lo ∨ hi < x → (HasStart blocks' x ↔ HasStart (L ++ p :: (M ++ r :: R)) x) := by
  -- the starts of the blocks, whatever the new ones are
  have hstart : ∀ {Y tail : List (Block w Extra)}, A.UnmapHead p lo Y →
      TailFor A e hi (r :: R) tail → ∀ x, x < lo ∨ hi < x →
      (HasStart (L ++ p :: (Y ++ (tail ++ r :: R))) x ↔ HasStart (L ++ p :: (M ++ r :: R)) x) := by
    intro Y tail hY htail x hx
    refine hc.hasStart_iff (T := Y ++ (tail ++ r :: R)) hlt.le ?_
      (fun x hx => htail.hasStart_iff (fun y hy => (hY.mem y hy).trans_lt hlt) hx)
      (le_succ _) (by omega)
    intro y hy
    rcases mem_append.1 hy with hy | hy
    · exact (hY.mem y hy).ge
    · exact hlt.le.trans ((htail.restOf h hc hlt he hmap).above y hy)
  by_cases hend : r.virt = hi
  · rw [if_neg (not_not.2 hend)]
    obtain ⟨Y, hcall, hY⟩ := unmapStart_eq (A := A) (L := L) (S := R) (k := L.length + M.length)
      hc.pred hc.inside hend hlt rfl fun hup => absurd hend (hmeets hup).2
    have htail := TailFor.present (A := A) (e := e) (R := R) hend
    have hunmapped := (htail.restOf h hc hlt he hmap).unmapped h hc hlt
      (fun s hs => (by simpa using hs : r = s) ▸ hr hend) hY
    exact ⟨_, hcall, hunmapped.1, hunmapped.2, hstart hY htail⟩
  · rw [if_pos hend]
    set t : Block w Extra := ⟨hi, A.advance e.phys (hi - e.virt), e.extraInfo⟩ with ht
    have htail : TailFor A e hi (r :: R) [t] :=
      .added (by simpa using hend) rfl (.inr ⟨hme, rfl, rfl⟩)
    have hrest := htail.restOf h hc hlt he hmap
    have hhead : ∀ s ∈ ([t] ++ r :: R).head?, A.Mapped s := by
      intro s hs
      exact htail.mapped h hc hlt he hmap hme s (by simpa [eq_comm] using hs)
    rcases eq_nil_or_concat M with rfl | ⟨M, e', rfl⟩
    · obtain rfl : p = e := by simpa using he
      have hY : A.UnmapHead p lo [⟨lo, A.unmappedPa, default⟩] := .inr ⟨hme, _, rfl, rfl, rfl⟩
      have hunmapped := hrest.unmapped h hc hlt hhead hY
      refine ⟨_, ?_, hunmapped.1, hunmapped.2, hstart hY htail⟩
      have hlist : L ++ p :: ([] ++ r :: R) = (L ++ [p]) ++ r :: R := by simp
      rw [if_neg (not_le.2 hc.pred), hlist, insertAt_at (by simp)]
      simp
    · rw [concat_eq_append] at *
      obtain rfl : e' = e := by simpa [getLast?_cons] using he
      have hinside := hc.inside e' (by simp)
      have hM : ∀ x ∈ M, lo ≤ x.virt ∧ x.virt < hi := fun x hx => hc.inside x (by simp [hx])
      obtain ⟨Y, hcall, hY⟩ := unmapStart_eq (A := A) (L := L) (S := r :: R) (t := t)
        (k := L.length + (M ++ [e']).length - 1) hc.pred hM rfl hlt rfl
        fun hup => by simpa using (hmeets hup).1
      have hunmapped := hrest.unmapped h hc hlt hhead hY
      refine ⟨_, ?_, hunmapped.1, hunmapped.2, hstart hY htail⟩
      have hlist : L ++ p :: ((M ++ [e']) ++ r :: R) = (L ++ p :: M) ++ e' :: r :: R := by simp
      have hidx : L.length + (M ++ [e']).length = L.length + 1 + M.length := by simp; omega
      rw [hidx] at hcall ⊢
      rw [if_pos hinside.1, hlist, set_at (by simp; omega), append_assoc, cons_append]
      exact hcall

/-- **`UnmapLocked`** clears the range and changes nothing else, under its condition. -/
theorem unmapLocked_spec (h : A.WellFormed blocks) (hvirt : 0 < virt)
    (hsize : 0 < size) (hlimit : virt + size ≤ A.vaLimit)
    (hmap : A.TailMapped blocks (virt + size)) (hmeets : A.UnmapMeets blocks virt (virt + size)) :
    ∃ blocks', unmapLocked A blocks virt size = .ok blocks' ∧ A.WellFormed blocks' ∧
      (∀ a, A.translate blocks' a =
        if virt ≤ a ∧ a < virt + size then none else A.translate blocks a) ∧
      ∀ x, x < virt ∨ virt + size < x → (HasStart blocks' x ↔ HasStart blocks x) := by
  have hlt : virt < virt + size := Nat.lt_add_of_pos_right hsize
  obtain ⟨L, p, M, R, rfl, hc⟩ := h.exists_cut hvirt hlt.le
  obtain ⟨e, he⟩ : ∃ e, (p :: M).getLast? = some e := ⟨_, getLast?_eq_some_getLast (by simp)⟩
  obtain ⟨T, hT⟩ := getLast?_eq_some_iff.1 he
  have hp : inForce Block.virt (L ++ p :: (M ++ R)) (virt - 1) = some p := by
    refine inForce_cons_of_lt (le_sub_one_of_lt hc.pred) fun x hx => ?_
    rcases mem_append.1 hx with hx | hx
    · have := hc.inside x hx
      omega
    · have := hc.above x hx
      omega
  obtain ⟨hmeetsMapped, hmeetsUnmapped⟩ := hmeets p hp e (hc.inForce_last hlt he)
  rw [hc.filter_inside] at hmeetsMapped hmeetsUnmapped
  have hmod : (virt + size) % 2 ^ A.vaTypeBits = virt + size :=
    mod_eq_of_lt (hlimit.trans_lt A.vaLimit_lt)
  have hassoc : L ++ p :: (M ++ R) = (L ++ T) ++ e :: R := by
    rw [← cons_append, hT]
    simp
  have hlength : (L ++ T).length = L.length + M.length := by
    have := congrArg length hT
    simp at this ⊢
    omega
  have hpred : deref (L ++ p :: (M ++ R)) (L.length + M.length) = .ok e := by
    rw [hassoc, deref_at hlength]
  have hidx : L.length + 1 + M.length - 1 = L.length + M.length := by omega
  simp only [unmapLocked, hmod, hc.lowerBound_eq hlt.le, hidx]
  rw [if_neg (by omega), if_neg (by omega), hpred]
  show ∃ blocks', (if A.Unmapped e then _ else _) = _ ∧ _
  by_cases hue : A.Unmapped e
  · rw [if_pos hue]
    obtain ⟨blocks', hcall, hwf, htranslate, hstart⟩ := unmapLocked_of_unmapped h hc hlt he hue
      fun hmp hgt hM => (hmeetsMapped hmp).1 ⟨hM, hgt, hue⟩
    exact ⟨blocks', hcall, hwf, htranslate, fun x hx => hstart x (hx.imp_right le_of_lt)⟩
  rw [if_neg hue]
  cases R with
  | nil =>
    obtain ⟨b, hb, hub⟩ := h.last
    rw [append_nil, getLast?_append_of_ne_nil _ (by simp), he] at hb
    exact absurd (Option.some.inj hb ▸ hub) hue
  | cons r R =>
  have hsucc : deref (L ++ p :: (M ++ r :: R)) (L.length + 1 + M.length) = .ok r := by
    have hassoc' : L ++ p :: (M ++ r :: R) = (L ++ p :: M) ++ r :: R := by simp
    rw [hassoc', deref_at (by simp; omega)]
  rw [hsucc]
  show ∃ blocks', (if r.virt = virt + size ∧ A.Unmapped r then _ else _) = _ ∧ _
  have hmem : r ∈ L ++ p :: (M ++ r :: R) := by simp
  by_cases hr : r.virt = virt + size ∧ A.Unmapped r
  · rw [if_pos hr]
    exact unmapLocked_of_unmapped_successor h hc hlt hr.1 hr.2 fun hmp hM =>
      (hmeetsMapped hmp).2 ⟨hM, r, hmem, hr⟩
  · rw [if_neg hr, if_neg (by simp; omega)]
    refine unmapLocked_of_mapped h hc hlt he hue hmap (fun hv hur => hr ⟨hv, hur⟩) fun hup => ?_
    rcases hmeetsUnmapped hup hue with ⟨s, hs, hv, hus⟩ | ⟨hM, hall⟩
    · have hlist : L ++ p :: (M ++ r :: R) = (L ++ p :: M) ++ r :: R := by simp
      have hsorted := h.sorted
      rw [hlist] at hsorted
      have hhead := hc.mem_virt_eq hlt (pairwise_append.1 hsorted).2.1 hs hv
      obtain rfl : r = s := by simpa using hhead
      exact absurd ⟨hv, hus⟩ hr
    · exact ⟨hM, hall r hmem⟩

/-! ## Runs -/

omit [Inhabited Extra] in
inductive MapOp (w : ℕ) (Extra : Type)
  | map (virt : ℕ) (phys : BitVec w) (size : ℕ) (extraInfo : Extra)
  | unmap (virt size : ℕ)

def MapOp.exec (A : AddressSpace w) (blocks : List (Block w Extra)) : MapOp w Extra → Except Fault (List (Block w Extra))
  | .map virt phys size extraInfo => mapLocked A blocks virt phys size extraInfo
  | .unmap virt size => unmapLocked A blocks virt size

def MapOp.range : MapOp w Extra → ℕ × ℕ
  | .map virt _ size _ => (virt, virt + size)
  | .unmap virt size => (virt, virt + size)

def MapOp.Covers (op : MapOp w Extra) (a : ℕ) : Prop := op.range.1 ≤ a ∧ a < op.range.2

instance (op : MapOp w Extra) (a : ℕ) : Decidable (op.Covers a) :=
  inferInstanceAs (Decidable (_ ∧ _))

/-- What an operation says about an address in its range. -/
def MapOp.valueAt (A : AddressSpace w) (a : ℕ) : MapOp w Extra → Option (BitVec w × Extra)
  | .map virt phys _ extraInfo => some (A.advance phys (a - virt), extraInfo)
  | .unmap _ _ => none

/-- The arguments that an operation may be called with. -/
def MapOp.Admissible (A : AddressSpace w) : MapOp w Extra → Prop
  | .map virt phys size _ =>
      0 < virt ∧ 0 < size ∧ virt + size ≤ A.vaLimit ∧ phys ≠ A.unmappedPa
  | .unmap virt size => 0 < virt ∧ 0 < size ∧ virt + size ≤ A.vaLimit

/-- The condition on the vector before the operation. -/
def MapOp.Meets (A : AddressSpace w) (blocks : List (Block w Extra)) : MapOp w Extra → Prop
  | .map virt _ size _ => A.TailMapped blocks (virt + size)
  | .unmap virt size => A.TailMapped blocks (virt + size) ∧ A.UnmapMeets blocks virt (virt + size)

/-- The last operation over an address decides its mapping. -/
def lastMapping (A : AddressSpace w) (ops : List (MapOp w Extra)) (a : ℕ) : Option (BitVec w × Extra) :=
  ((ops.filter fun op => op.Covers a).getLast?).bind (MapOp.valueAt A a)

/-- The vector of the constructor: `Block{}`. -/
def initial (A : AddressSpace w) : List (Block w Extra) := [⟨0, A.unmappedPa, default⟩]

inductive Run (A : AddressSpace w) : List (MapOp w Extra) → List (Block w Extra) → Prop
  | nil : Run A [] (initial A)
  | snoc {ops : List (MapOp w Extra)} {blocks blocks' : List (Block w Extra)} {op : MapOp w Extra}
      (run : Run A ops blocks) (admissible : op.Admissible A) (meets : op.Meets A blocks)
      (exec : op.exec A blocks = .ok blocks') : Run A (ops ++ [op]) blocks'

theorem MapOp.exec_spec {op : MapOp w Extra} (h : A.WellFormed blocks)
    (hop : op.Admissible A) (hmeets : op.Meets A blocks) :
    ∃ blocks', op.exec A blocks = .ok blocks' ∧ A.WellFormed blocks' ∧
      ∀ a, A.translate blocks' a =
        if op.Covers a then op.valueAt A a else A.translate blocks a := by
  cases op with
  | map virt phys size extra =>
    obtain ⟨hvirt, hsize, hlimit, hphys⟩ := hop
    obtain ⟨blocks', hcall, hwf, htranslate, -⟩ :=
      mapLocked_spec h hvirt hsize hlimit hphys hmeets extra
    exact ⟨blocks', hcall, hwf, htranslate⟩
  | unmap virt size =>
    obtain ⟨hvirt, hsize, hlimit⟩ := hop
    obtain ⟨blocks', hcall, hwf, htranslate, -⟩ :=
      unmapLocked_spec h hvirt hsize hlimit hmeets.1 hmeets.2
    exact ⟨blocks', hcall, hwf, htranslate⟩

lemma wellFormed_initial : A.WellFormed (initial A : List (Block w Extra)) :=
  ⟨by simp [initial], ⟨_, rfl, rfl⟩, ⟨_, rfl, rfl⟩, by simp [initial]⟩

lemma translate_initial (a : ℕ) : A.translate (initial A : List (Block w Extra)) a = none := by
  have hunmapped : A.Unmapped (⟨0, A.unmappedPa, default⟩ : Block w Extra) := rfl
  have hone := translate_concat (A := A) (L := []) (b := (⟨0, A.unmappedPa, default⟩ : Block w Extra)) (zero_le a)
  exact hone.trans (valueAt_of_unmapped hunmapped a)

lemma Run.wellFormed {ops : List (MapOp w Extra)} (hrun : Run A ops blocks) :
    A.WellFormed blocks ∧ ∀ a, A.translate blocks a = lastMapping A ops a := by
  induction hrun with
  | nil => exact ⟨wellFormed_initial, translate_initial⟩
  | snoc _ hop hmeets hexec ih =>
    obtain ⟨blocks'', hexec', hwf, htranslate⟩ := MapOp.exec_spec ih.1 hop hmeets
    obtain rfl : blocks'' = _ := Except.ok.inj (hexec'.symm.trans hexec)
    refine ⟨hwf, fun a => ?_⟩
    rw [htranslate a, lastMapping, filter_append, ih.2 a]
    split_ifs with hcovers
    · simp [hcovers]
    · simp [hcovers, lastMapping]

/-- **The interval map.**  After every run whose steps meet the condition the vector is sorted from zero
on, ends unmapped, has no two unmapped blocks in a row and gives each address the mapping of the last
operation over it; and the next such operation runs into no assertion. -/
theorem interval_map_of_run (A : AddressSpace w) {ops : List (MapOp w Extra)}
    {blocks : List (Block w Extra)} (hrun : Run A ops blocks) :
    A.WellFormed blocks ∧ (∀ a, A.translate blocks a = lastMapping A ops a) ∧
      ∀ op : MapOp w Extra, op.Admissible A → op.Meets A blocks → ∃ blocks', op.exec A blocks = .ok blocks' := by
  refine ⟨hrun.wellFormed.1, hrun.wellFormed.2, ?_⟩
  intro op hop hmeets
  obtain ⟨blocks', hexec, -⟩ := MapOp.exec_spec hrun.wellFormed.1 hop hmeets
  exact ⟨blocks', hexec⟩

/-- Addresses of 40 bits, with contiguous mappings. -/
def fortyBits : AddressSpace 64 where
  vaTypeBits := 64
  unmappedPa := 0
  paContigSplit := true
  vaLimit := 2 ^ 40 - 1
  vaLimit_lt := by decide

/-- Two pages are mapped and the first of them is unmapped: its block is the rest of the mapping. -/
theorem interval_map_of_run_two_pages :
    ∃ blocks : List (Block 64 Unit), Run fortyBits [.map 0x1000 5 0x2000 (), .unmap 0x1000 0x1000] blocks ∧
      fortyBits.translate blocks 0x1000 = none ∧
      fortyBits.translate blocks 0x2008 = some (0x100D, ()) := by
  have hmap : Run fortyBits [.map 0x1000 5 0x2000 ()]
      ([⟨0, 0, ()⟩, ⟨0x1000, 5, ()⟩, ⟨0x3000, 0, ()⟩] : List (Block 64 Unit)) :=
    .snoc .nil (by simp [MapOp.Admissible, fortyBits])
      (show fortyBits.TailMapped _ _ by decide) rfl
  have hunmap : Run fortyBits [.map 0x1000 5 0x2000 (), .unmap 0x1000 0x1000]
      ([⟨0, 0, ()⟩, ⟨0x2000, 0x1005, ()⟩, ⟨0x3000, 0, ()⟩] : List (Block 64 Unit)) :=
    .snoc hmap (by simp [MapOp.Admissible, fortyBits])
      (show fortyBits.TailMapped _ _ ∧ fortyBits.UnmapMeets _ _ _ by decide) rfl
  refine ⟨_, hunmap, ?_, ?_⟩
  · rw [(interval_map_of_run fortyBits hunmap).2.1]
    rfl
  · rw [(interval_map_of_run fortyBits hunmap).2.1]
    rfl

/-- Two adjacent pages are mapped one by one and the first is unmapped: it stays mapped. -/
theorem unmap_leaves_mapping :
    (∀ op ∈ ([.map 0x1000 5 0x1000 (), .map 0x2000 9 0x1000 (), .unmap 0x1000 0x1000] :
      List (MapOp 64 Unit)), op.Admissible fortyBits) ∧
    ∃ blocks, foldlM (MapOp.exec fortyBits) (initial fortyBits)
        ([.map 0x1000 5 0x1000 (), .map 0x2000 9 0x1000 (), .unmap 0x1000 0x1000] : List (MapOp 64 Unit)) = .ok blocks ∧
      fortyBits.translate blocks 0x1000 = some (5, ()) ∧
      lastMapping fortyBits ([.map 0x1000 5 0x1000 (), .map 0x2000 9 0x1000 (),
        .unmap 0x1000 0x1000] : List (MapOp 64 Unit)) 0x1000 = none := by
  refine ⟨?_, _, rfl, rfl, rfl⟩
  simp [MapOp.Admissible, fortyBits]

end

end AddressSpace

end Voltemu.Common
