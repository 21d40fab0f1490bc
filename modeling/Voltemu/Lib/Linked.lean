import Mathlib.Tactic

/-!
# Lists threaded through a link function

An intrusive or array-backed list is a head and a function that gives every cell its successor.
`Linked next head l` says that following `next` from `head` visits exactly the cells of `l` and then
stops.  The list it visits is determined by the head, and a write to a cell outside it does not
change it: these two facts are what a proof about such a structure uses.
-/

namespace Linked

variable {ι : Type*} {next : ι → Option ι}

/-- Following `next` from `head` visits the cells of the list, in order, and stops. -/
def Chain (next : ι → Option ι) : Option ι → List ι → Prop
  | head, [] => head = none
  | head, i :: l => head = some i ∧ Chain next (next i) l

@[simp] lemma chain_nil {head : Option ι} : Chain next head [] ↔ head = none := Iff.rfl

variable {i x : ι}

@[simp] lemma chain_cons {head : Option ι} {l : List ι} :
    Chain next head (i :: l) ↔ head = some i ∧ Chain next (next i) l := Iff.rfl

variable {head : Option ι} {next' : ι → Option ι} {l : List ι}

lemma chain_none (h : Chain next none l) : l = [] := by
  cases l with
  | nil => rfl
  | cons i l => simp at h

/-- A chain that starts at a cell is that cell followed by the rest. -/
lemma chain_some (h : Chain next (some i) l) : ∃ l', l = i :: l' ∧ Chain next (next i) l' := by
  cases l with
  | nil => simp at h
  | cons j l =>
    obtain ⟨hij, hl⟩ := h
    obtain rfl := Option.some.inj hij
    exact ⟨l, rfl, hl⟩

lemma Chain.unique {l l' : List ι} (h : Chain next head l) (h' : Chain next head l') : l = l' := by
  induction l generalizing head l' with
  | nil =>
    rw [chain_nil] at h
    subst h
    exact (chain_none h').symm
  | cons i l ih =>
    obtain ⟨rfl, hl⟩ := h
    obtain ⟨l'', rfl, hl''⟩ := chain_some h'
    rw [ih hl hl'']

lemma Chain.head_eq (h : Chain next head l) : head = l.head? := by
  cases l with
  | nil => exact h
  | cons i l => exact h.1

variable {l₁ l₂ : List ι}

/-- The successor of a cell is the cell visited after it. -/
lemma Chain.next_eq (h : Chain next head (l₁ ++ i :: l₂)) : next i = l₂.head? := by
  induction l₁ generalizing head with
  | nil => exact h.2.head_eq
  | cons j l₁ ih => exact ih h.2

lemma Chain.congr (h : Chain next head l) (hnext : ∀ i ∈ l, next' i = next i) : Chain next' head l := by
  induction l generalizing head with
  | nil => exact h
  | cons i l ih =>
    obtain ⟨hhead, hl⟩ := h
    refine ⟨hhead, ?_⟩
    rw [hnext i (by simp)]
    exact ih hl fun j hj => hnext j (by simp [hj])

lemma Chain.from_cell (h : Chain next head (l₁ ++ i :: l₂)) : Chain next (some i) (i :: l₂) := by
  induction l₁ generalizing head with
  | nil => exact ⟨rfl, h.2⟩
  | cons j l₁ ih => exact ih h.2

/-- A cell is linked behind the last one. -/
lemma Chain.snoc {e : ι} (h : Chain next head (l ++ [x])) (hl : ∀ i ∈ l, next' i = next i) (hx : next' x = some e)
    (he : next' e = none) : Chain next' head (l ++ [x, e]) := by
  induction l generalizing head with
  | nil => exact ⟨h.1, hx, he⟩
  | cons i l ih =>
    refine ⟨h.1, ?_⟩
    rw [hl i List.mem_cons_self]
    exact ih h.2 fun j hj => hl j (List.mem_cons_of_mem _ hj)

lemma Chain.unlink {l r : List ι} {y : ι} (h : Chain next head (l ++ y :: x :: r)) (hl : ∀ i ∈ l ++ r, next' i = next i)
    (hy : next' y = next x) : Chain next' head (l ++ y :: r) := by
  induction l generalizing head with
  | nil =>
    refine ⟨h.1, ?_⟩
    rw [hy]
    exact h.2.2.congr hl
  | cons i l ih =>
    refine ⟨h.1, ?_⟩
    rw [hl i List.mem_cons_self]
    exact ih h.2 fun j hj => hl j (List.mem_cons_of_mem _ hj)

end Linked
