import Voltemu.Lib.Linked

/-!
# Hash tables with chains

A table has a head for every bucket and a link from every element, so that the elements of a bucket are on a chain.

* `Chained`: what has been put in, the newest element first, is on the chains.
* `Chained.push`: an element that is put in front of its chain.
* `Complete`: every element is on the chain of the bucket that it belongs to, and on no other.
* `Chained.complete_iff`: a table is complete if and only if every element was put where it belongs.
-/

namespace HashChains

open Linked

variable {ι κ : Type*} {heads heads' : ℕ → Option ι} {next next' : ι → Option ι} {count : ℕ} {elems : List (ι × ℕ)}

/-- **The elements are on the chains of the buckets that they were put in.** -/
structure Chained (heads : ℕ → Option ι) (next : ι → Option ι) (count : ℕ) (elems : List (ι × ℕ)) : Prop where
  nodup : (elems.map Prod.fst).Nodup
  chains : ∀ b < count, Chain next (heads b) ((elems.filter fun e => e.2 = b).map Prod.fst)

lemma Chained.nil (h : ∀ b < count, heads b = none) : Chained heads next count [] := ⟨List.nodup_nil, h⟩

lemma Chained.congr (h : Chained heads next count elems) (hheads : ∀ b < count, heads' b = heads b)
    (hnext : ∀ x ∈ elems.map Prod.fst, next' x = next x) : Chained heads' next' count elems := by
  refine ⟨h.nodup, fun b hb => ?_⟩
  rw [hheads b hb]
  refine (h.chains b hb).congr fun x hx => hnext x ?_
  obtain ⟨e, he, rfl⟩ := List.mem_map.1 hx
  exact List.mem_map_of_mem (List.mem_of_mem_filter he)

/-- **An element is put in front of a chain.** -/
lemma Chained.push (h : Chained heads next count elems) {x : ι} {bucket : ℕ} (hbucket : bucket < count)
    (hx : x ∉ elems.map Prod.fst) (hheads : ∀ b < count, heads' b = if b = bucket then some x else heads b)
    (hlink : next' x = heads bucket) (hnext : ∀ y ∈ elems.map Prod.fst, next' y = next y) :
    Chained heads' next' count ((x, bucket) :: elems) := by
  have hold : ∀ b < count, Chain next' (heads b) ((elems.filter fun e => e.2 = b).map Prod.fst) :=
    (h.congr (fun _ _ => rfl) hnext).chains
  refine ⟨List.nodup_cons.2 ⟨hx, h.nodup⟩, fun b hb => ?_⟩
  rw [hheads b hb, List.filter_cons]
  by_cases hsame : b = bucket
  · rw [if_pos hsame, if_pos (by simp [hsame]), List.map_cons, chain_cons, hlink, hsame]
    exact ⟨rfl, hold bucket hbucket⟩
  · rw [if_neg hsame, if_neg (by simpa using Ne.symm hsame)]
    exact hold b hb

/-- **Every element is on the chain of its bucket**, once, and on no other chain. -/
def Complete (heads : ℕ → Option ι) (next : ι → Option ι) (count : ℕ) (elems : List (ι × ℕ)) : Prop :=
  (elems.map Prod.fst).Nodup ∧ ∀ b < count, ∃ l, Chain next (heads b) l ∧ l.Nodup ∧ ∀ x, x ∈ l ↔ (x, b) ∈ elems

/-- **A table is complete** if and only if every element was put where it belongs. -/
theorem Chained.complete_iff {cells : List κ} {cell : κ → ι} {put wanted : κ → ℕ}
    (h : Chained heads next count (cells.map fun c => (cell c, put c)).reverse) (hput : ∀ c ∈ cells, put c < count) :
    Complete heads next count (cells.map fun c => (cell c, wanted c)) ↔ ∀ c ∈ cells, wanted c = put c := by
  have hnodup : (cells.map cell).Nodup := by
    have := h.nodup
    rw [List.map_reverse, List.nodup_reverse, List.map_map] at this
    exact this
  have hmem : ∀ x b, x ∈ (((cells.map fun c => (cell c, put c)).reverse.filter fun e => e.2 = b).map Prod.fst) ↔
      (x, b) ∈ cells.map fun c => (cell c, put c) := by
    intro x b
    simp only [List.map_reverse, List.mem_reverse, List.filter_reverse, List.mem_map, List.mem_filter, Prod.mk.injEq, decide_eq_true_eq]
    constructor
    · rintro ⟨-, ⟨⟨c, hc, rfl⟩, rfl⟩, rfl⟩
      exact ⟨c, hc, rfl, rfl⟩
    · rintro ⟨c, hc, rfl, rfl⟩
      exact ⟨_, ⟨⟨c, hc, rfl⟩, rfl⟩, rfl⟩
  constructor
  · rintro ⟨-, hcomplete⟩ c hc
    obtain ⟨l, hl, -, hl'⟩ := hcomplete (put c) (hput c hc)
    obtain rfl := hl.unique (h.chains _ (hput c hc))
    have hin := (hl' (cell c)).1 ((hmem _ _).2 (List.mem_map_of_mem hc))
    obtain ⟨c', hc', heq⟩ := List.mem_map.1 hin
    obtain ⟨hcell, hwanted⟩ := Prod.mk.inj heq
    obtain rfl := List.inj_on_of_nodup_map hnodup hc' hc hcell
    exact hwanted
  · intro hsame
    have hcells : cells.map (fun c => (cell c, wanted c)) = cells.map fun c => (cell c, put c) :=
      List.map_congr_left fun c hc => by rw [hsame c hc]
    rw [hcells]
    refine ⟨by rw [List.map_map]; exact hnodup, fun b hb => ⟨_, h.chains b hb, ?_, fun x => hmem x b⟩⟩
    exact h.nodup.sublist (List.filter_sublist.map _)

end HashChains
