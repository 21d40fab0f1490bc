import Mathlib.Tactic.Common

/-!
# Sequences of copies

A routine that rearranges a buffer is a sequence of copies of blocks of one length, from an input into an output.
Which blocks are copied is a list of pairs: where a block goes and where it comes from.

* `copy`: one block, `none` when it does not lie within the two buffers.
* `copies`: a list of blocks.
* `copies_written`: a place that the copies agree on holds what they put there, whatever their order.
* `copies_origin`: a place that is changed holds what some copy put there.
* `foldlM_flatMap`: nested loops are one loop over the flattened list.
-/

namespace Copies

open List

variable {α : Type*}

/-- Copies `n` elements of `input` from `src` on to `output` from `dst` on. -/
def copy (n : ℕ) (output input : List α) (dst src : ℕ) : Option (List α) :=
  if dst + n ≤ output.length ∧ src + n ≤ input.length then
    some (output.take dst ++ ((input.drop src).take n ++ output.drop (dst + n)))
  else none

def copies (n : ℕ) (input output : List α) (l : List (ℕ × ℕ)) : Option (List α) :=
  l.foldlM (fun output p => copy n output input p.1 p.2) output

variable {n dst src k v : ℕ} {input output result : List α} {l : List (ℕ × ℕ)} {p : ℕ × ℕ}

lemma copy_eq_some (hd : dst + n ≤ output.length) (hs : src + n ≤ input.length) :
    ∃ result, copy n output input dst src = some result ∧ result.length = output.length := by
  refine ⟨_, if_pos ⟨hd, hs⟩, ?_⟩
  simp only [length_append, length_take, length_drop]
  omega

lemma copy_fits (h : copy n output input dst src = some result) : dst + n ≤ output.length ∧ src + n ≤ input.length := by
  by_contra hn
  rw [copy, if_neg hn] at h
  cases h

lemma copy_getElem? (h : copy n output input dst src = some result) (k : ℕ) :
    result[k]? = if dst ≤ k ∧ k < dst + n then input[src + (k - dst)]? else output[k]? := by
  obtain ⟨hd, hs⟩ := copy_fits h
  rw [copy, if_pos ⟨hd, hs⟩] at h
  obtain rfl := Option.some.inj h
  have htake : (output.take dst).length = dst := by
    rw [length_take]
    omega
  have hblock : ((input.drop src).take n).length = n := by
    rw [length_take, length_drop]
    omega
  by_cases hlow : k < dst
  · rw [getElem?_append_left (by omega), getElem?_take_of_lt hlow, if_neg (by omega)]
  · rw [getElem?_append_right (by omega), htake]
    by_cases hhigh : k - dst < n
    · rw [getElem?_append_left (by omega), getElem?_take_of_lt hhigh, getElem?_drop, if_pos (by omega)]
    · rw [getElem?_append_right (by omega), hblock, getElem?_drop, if_neg (by omega)]
      congr 1
      omega

@[simp] lemma copies_nil : copies n input output [] = some output := rfl

lemma copies_cons (p : ℕ × ℕ) (l : List (ℕ × ℕ)) :
    copies n input output (p :: l) = (copy n output input p.1 p.2).bind fun output => copies n input output l := by
  simp only [copies, foldlM_cons]
  rfl

lemma copies_append (l l' : List (ℕ × ℕ)) :
    copies n input output (l ++ l') = (copies n input output l).bind fun output => copies n input output l' := by
  simp only [copies, foldlM_append]
  rfl

lemma copies_eq_some (h : ∀ p ∈ l, p.1 + n ≤ output.length ∧ p.2 + n ≤ input.length) :
    ∃ result, copies n input output l = some result ∧ result.length = output.length := by
  induction l generalizing output with
  | nil => exact ⟨output, rfl, rfl⟩
  | cons p l ih =>
    obtain ⟨hd, hs⟩ := h p mem_cons_self
    obtain ⟨middle, hmiddle, hlength⟩ := copy_eq_some hd hs
    obtain ⟨result, hresult, hlength'⟩ := @ih middle fun q hq => by
      rw [hlength]
      exact h q (mem_cons_of_mem _ hq)
    refine ⟨result, ?_, hlength'.trans hlength⟩
    rw [copies_cons, hmiddle]
    exact hresult

section

variable (h : copies n input output l = some result)
include h

lemma copies_frame (hk : ∀ p ∈ l, ¬ (p.1 ≤ k ∧ k < p.1 + n)) : result[k]? = output[k]? := by
  induction l generalizing output with
  | nil =>
    obtain rfl := Option.some.inj h
    rfl
  | cons p l ih =>
    rw [copies_cons] at h
    obtain ⟨middle, hmiddle, hrest⟩ := Option.bind_eq_some_iff.1 h
    rw [ih hrest fun q hq => hk q (mem_cons_of_mem _ hq), copy_getElem? hmiddle, if_neg (hk p mem_cons_self)]

lemma copies_keep (hv : ∀ p ∈ l, p.1 ≤ k → k < p.1 + n → p.2 + (k - p.1) = v) (hk : output[k]? = input[v]?) :
    result[k]? = input[v]? := by
  induction l generalizing output with
  | nil =>
    obtain rfl := Option.some.inj h
    exact hk
  | cons p l ih =>
    rw [copies_cons] at h
    obtain ⟨middle, hmiddle, hrest⟩ := Option.bind_eq_some_iff.1 h
    refine ih hrest (fun q hq => hv q (mem_cons_of_mem _ hq)) ?_
    rw [copy_getElem? hmiddle]
    split_ifs with hc
    · rw [hv p mem_cons_self hc.1 hc.2]
    · exact hk

/-- **A place that the copies agree on holds what they put there.** -/
lemma copies_written (hp : p ∈ l) (hlow : p.1 ≤ k)
    (hhigh : k < p.1 + n) (hv : ∀ q ∈ l, q.1 ≤ k → k < q.1 + n → q.2 + (k - q.1) = v) :
    result[k]? = input[v]? := by
  induction l generalizing output with
  | nil => cases hp
  | cons q l ih =>
    rw [copies_cons] at h
    obtain ⟨middle, hmiddle, hrest⟩ := Option.bind_eq_some_iff.1 h
    have hv' : ∀ q ∈ l, q.1 ≤ k → k < q.1 + n → q.2 + (k - q.1) = v :=
      fun q hq => hv q (mem_cons_of_mem _ hq)
    rcases mem_cons.1 hp with rfl | hp
    · refine copies_keep hrest hv' ?_
      rw [copy_getElem? hmiddle, if_pos ⟨hlow, hhigh⟩, hv p mem_cons_self hlow hhigh]
    · exact ih hrest hp hv'

/-- A place holds what it held or what some copy put there. -/
lemma copies_origin (k : ℕ) :
    result[k]? = output[k]? ∨ ∃ p ∈ l, p.1 ≤ k ∧ k < p.1 + n ∧ result[k]? = input[p.2 + (k - p.1)]? := by
  induction l generalizing output with
  | nil =>
    obtain rfl := Option.some.inj h
    exact .inl rfl
  | cons p l ih =>
    rw [copies_cons] at h
    obtain ⟨middle, hmiddle, hrest⟩ := Option.bind_eq_some_iff.1 h
    rcases ih hrest with hkeep | ⟨q, hq, horigin⟩
    · rw [copy_getElem? hmiddle] at hkeep
      split_ifs at hkeep with hcovers
      · exact .inr ⟨p, mem_cons_self, hcovers.1, hcovers.2, hkeep⟩
      · exact .inl hkeep
    · exact .inr ⟨q, mem_cons_of_mem _ hq, horigin⟩

end

lemma foldlM_flatMap {β γ σ : Type*} (f : σ → γ → Option σ) (g : β → List γ) (l : List β) (s : σ) :
    (l.flatMap g).foldlM f s = l.foldlM (fun s b => (g b).foldlM f s) s := by
  induction l generalizing s with
  | nil => rfl
  | cons b l ih =>
    rw [flatMap_cons, foldlM_append, foldlM_cons]
    congr 1
    funext s'
    exact ih s'

end Copies
