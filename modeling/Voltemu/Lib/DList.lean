import Mathlib.Tactic

/-!
# Intrusive doubly linked lists

Every member carries an entry with two pointers, and a root closes the list at both ends.  `IsList`
says which list the pointers spell out; the three operations are the usual pointer manipulations.

* `isList_pushBack`, `isList_pushFront`, `isList_remove` — the operations append, prepend and erase;
* `pushBack_entry_of_ne`, `pushFront_entry_of_ne`, `remove_entry_of_ne` — they write to no entry
  outside the list and the member, so several lists can share one array of entries.
-/

namespace DList

open Function List

variable {ι : Type*}

/-- The two pointers of a member, or of the root. -/
@[ext] structure Entry (ι : Type*) where
  prev : Option ι
  next : Option ι
deriving DecidableEq

structure Links (ι : Type*) where
  root : Entry ι
  entry : ι → Entry ι

/-- The pointers spell out the list `l`. -/
structure IsList (s : Links ι) (l : List ι) : Prop where
  nodup : l.Nodup
  head : s.root.next = l.head?
  last : s.root.prev = l.getLast?
  entry : ∀ l₁ x l₂, l = l₁ ++ x :: l₂ → s.entry x = ⟨l₁.getLast?, l₂.head?⟩

lemma isList_nil (e : ι → Entry ι) : IsList ⟨⟨none, none⟩, e⟩ [] := by
  refine ⟨nodup_nil, rfl, rfl, ?_⟩
  intro l₁ x l₂ h
  simp at h

lemma IsList.congr {s s' : Links ι} {l : List ι} (h : IsList s l) (hroot : s'.root = s.root)
    (hentry : ∀ x ∈ l, s'.entry x = s.entry x) : IsList s' l := by
  refine ⟨h.nodup, hroot ▸ h.head, hroot ▸ h.last, ?_⟩
  intro l₁ x l₂ hl
  rw [hentry x (by simp [hl])]
  exact h.entry l₁ x l₂ hl

lemma IsList.next_eq {s : Links ι} {l₁ l₂ : List ι} {x : ι} (h : IsList s (l₁ ++ x :: l₂)) :
    (s.entry x).next = l₂.head? := by
  rw [h.entry l₁ x l₂ rfl]

namespace Links

variable [DecidableEq ι]

/-- Set the `next` pointer of a member, or of the root. -/
def setNext (s : Links ι) (target next : Option ι) : Links ι :=
  match target with
  | none => { s with root := { s.root with next := next } }
  | some i => { s with entry := update s.entry i { s.entry i with next := next } }

/-- Set the `prev` pointer of a member, or of the root. -/
def setPrev (s : Links ι) (target prev : Option ι) : Links ι :=
  match target with
  | none => { s with root := { s.root with prev := prev } }
  | some i => { s with entry := update s.entry i { s.entry i with prev := prev } }

def pushBack (s : Links ι) (m : ι) : Links ι :=
  let tail := s.root.prev
  (({ s with entry := update s.entry m ⟨tail, none⟩ }).setNext tail (some m)).setPrev none (some m)

def pushFront (s : Links ι) (m : ι) : Links ι :=
  let head := s.root.next
  (({ s with entry := update s.entry m ⟨none, head⟩ }).setPrev head (some m)).setNext none (some m)

def remove (s : Links ι) (m : ι) : Links ι :=
  let prev := (s.entry m).prev
  let next := (s.entry m).next
  (s.setNext prev next).setPrev next prev

/-! ## What a pointer write does -/

section

variable (s : Links ι) (i : Option ι)
include s i

lemma setNext_entry (n : Option ι) (x : ι) :
    (s.setNext i n).entry x = if i = some x then { s.entry x with next := n } else s.entry x := by
  cases i with
  | none => simp [setNext]
  | some i =>
    simp only [setNext, update_apply, Option.some.injEq, eq_comm (a := i)]
    split_ifs with h
    · rw [h]
    · rfl

lemma setPrev_entry (p : Option ι) (x : ι) :
    (s.setPrev i p).entry x = if i = some x then { s.entry x with prev := p } else s.entry x := by
  cases i with
  | none => simp [setPrev]
  | some i =>
    simp only [setPrev, update_apply, Option.some.injEq, eq_comm (a := i)]
    split_ifs with h
    · rw [h]
    · rfl

lemma setNext_root (n : Option ι) : (s.setNext i n).root = if i = none then { s.root with next := n } else s.root := by
  cases i <;> simp [setNext]

lemma setPrev_root (p : Option ι) : (s.setPrev i p).root = if i = none then { s.root with prev := p } else s.root := by
  cases i <;> simp [setPrev]

end

end Links

section Operations

variable {s : Links ι} {l : List ι} {m : ι}

variable {x : ι}

variable {l₁ l₂ : List ι}

/-- In a list without repetitions only the last member ends it. -/
private lemma getLast_eq_iff (h : (l₁ ++ x :: l₂).Nodup) : (l₁ ++ x :: l₂).getLast? = some x ↔ l₂ = [] := by
  cases l₂ with
  | nil => simp
  | cons y l₂ =>
    simp only [getLast?_append, getLast?_cons_cons, reduceCtorEq, iff_false]
    intro hlast
    have hmem : x ∈ y :: l₂ := by
      rw [Option.or_eq_some_iff] at hlast
      rcases hlast with hlast | ⟨hnone, -⟩
      · exact mem_of_getLast? hlast
      · simp at hnone
    have hnot := (nodup_cons.1 (nodup_append.1 h).2.1).1
    exact hnot hmem

/-- In a list without repetitions only the first member starts it. -/
private lemma head_eq_iff (h : (l₁ ++ x :: l₂).Nodup) : (l₁ ++ x :: l₂).head? = some x ↔ l₁ = [] := by
  cases l₁ with
  | nil => simp
  | cons y l₁ =>
    simp only [cons_append, head?_cons, Option.some.injEq, reduceCtorEq, iff_false]
    rintro rfl
    exact (nodup_cons.1 h).1 (by simp)

variable [DecidableEq ι]

lemma pushBack_entry (s : Links ι) (m x : ι) :
    (s.pushBack m).entry x =
      if s.root.prev = some x then
        { (if x = m then ⟨s.root.prev, none⟩ else s.entry x) with next := some m }
      else if x = m then ⟨s.root.prev, none⟩ else s.entry x := by
  simp only [Links.pushBack, Links.setPrev_entry, Links.setNext_entry, update_apply, reduceCtorEq, if_false]

lemma pushFront_entry (s : Links ι) (m x : ι) :
    (s.pushFront m).entry x =
      if s.root.next = some x then
        { (if x = m then ⟨none, s.root.next⟩ else s.entry x) with prev := some m }
      else if x = m then ⟨none, s.root.next⟩ else s.entry x := by
  simp only [Links.pushFront, Links.setPrev_entry, Links.setNext_entry, update_apply, reduceCtorEq, if_false]

/-- **`pushBack` appends.** -/
theorem isList_pushBack (h : IsList s l) (hm : m ∉ l) : IsList (s.pushBack m) (l ++ [m]) := by
  refine ⟨?_, ?_, ?_, ?_⟩
  · exact nodup_append.2 ⟨h.nodup, nodup_singleton m, by
      intro a ha b hb hab
      rw [mem_singleton.1 hb] at hab
      exact hm (hab ▸ ha)⟩
  · rw [Links.pushBack, Links.setPrev_root, if_pos rfl, Links.setNext_root, h.last]
    cases hl : l.getLast? with
    | none => simp [getLast?_eq_none_iff.1 hl]
    | some t =>
      have hne : l ≠ [] := by
        rintro rfl
        simp at hl
      simp [h.head, head?_append_of_ne_nil _ hne]
  · simp [Links.pushBack, Links.setPrev_root]
  · intro l₁ x l₂ hl
    rw [pushBack_entry, h.last]
    rcases l₂.eq_nil_or_concat with rfl | ⟨l₂, y, rfl⟩
    · obtain ⟨rfl, hx⟩ := append_inj' hl rfl
      obtain rfl : m = x := by simpa using hx
      have hne : l.getLast? ≠ some m := fun hlast => hm (mem_of_getLast? hlast)
      simp [hne]
    · rw [concat_eq_append, ← cons_append, ← append_assoc] at hl
      obtain ⟨rfl, hy⟩ := append_inj' hl rfl
      obtain rfl : m = y := by simpa using hy
      have hxm : x ≠ m := by
        rintro rfl
        exact hm (by simp)
      rw [if_neg hxm, h.entry l₁ x l₂ rfl]
      split_ifs with hlast
      · rw [(getLast_eq_iff h.nodup).1 hlast]
        simp
      · have hne : l₂ ≠ [] := fun hnil => hlast ((getLast_eq_iff h.nodup).2 hnil)
        rw [concat_eq_append, head?_append_of_ne_nil _ hne]

/-- **`pushFront` prepends.** -/
theorem isList_pushFront (h : IsList s l) (hm : m ∉ l) : IsList (s.pushFront m) (m :: l) := by
  refine ⟨nodup_cons.2 ⟨hm, h.nodup⟩, ?_, ?_, ?_⟩
  · simp [Links.pushFront, Links.setNext_root]
  · rw [Links.pushFront, Links.setNext_root, if_pos rfl, Links.setPrev_root, h.head]
    cases hl : l.head? with
    | none => simp [head?_eq_none_iff.1 hl]
    | some t =>
      have hne : l ≠ [] := by
        rintro rfl
        simp at hl
      rw [if_neg (by simp), h.last, getLast?_cons_of_ne_nil hne]
  · intro l₁ x l₂ hl
    rw [pushFront_entry, h.head]
    cases l₁ with
    | nil =>
      obtain ⟨rfl, rfl⟩ : m = x ∧ l = l₂ := by simpa using hl
      have hne : l.head? ≠ some m := fun hhead => hm (mem_of_head? hhead)
      simp [hne]
    | cons y l₁ =>
      obtain ⟨rfl, rfl⟩ : m = y ∧ l = l₁ ++ x :: l₂ := by simpa using hl
      have hxm : x ≠ m := by
        rintro rfl
        exact hm (by simp)
      rw [if_neg hxm, h.entry l₁ x l₂ rfl]
      split_ifs with hhead
      · rw [(head_eq_iff h.nodup).1 hhead]
        simp
      · have hne : l₁ ≠ [] := fun hnil => hhead ((head_eq_iff h.nodup).2 hnil)
        rw [getLast?_cons_of_ne_nil hne]

lemma remove_entry (s : Links ι) (m x : ι) :
    (s.remove m).entry x =
      ⟨if (s.entry m).next = some x then (s.entry m).prev else (s.entry x).prev,
        if (s.entry m).prev = some x then (s.entry m).next else (s.entry x).next⟩ := by
  simp only [Links.remove, Links.setPrev_entry, Links.setNext_entry]
  split_ifs <;> rfl

/-- **`remove` erases.** -/
theorem isList_remove (h : IsList s l) (hm : m ∈ l) : IsList (s.remove m) (l.erase m) := by
  obtain ⟨a, b, rfl⟩ := append_of_mem hm
  have hnodup := h.nodup
  have hma : m ∉ a := fun hmem => (nodup_append.1 hnodup).2.2 m hmem m (by simp) rfl
  have hmb : m ∉ b := (nodup_cons.1 (nodup_append.1 hnodup).2.1).1
  have herase : (a ++ m :: b).erase m = a ++ b := by
    rw [erase_append_right _ hma, erase_cons_head]
  have hent := h.entry a m b rfl
  have hprev : (s.entry m).prev = a.getLast? := by rw [hent]
  have hnext : (s.entry m).next = b.head? := by rw [hent]
  rw [herase]
  have hab : (a ++ b).Nodup := herase ▸ hnodup.erase m
  have hdisj : ∀ x ∈ a, x ∉ b := fun x hx hxb => (nodup_append.1 hab).2.2 x hx x hxb rfl
  refine ⟨hab, ?_, ?_, ?_⟩
  · rw [Links.remove, Links.setPrev_root, Links.setNext_root, hprev, hnext]
    cases hl : a.getLast? with
    | none =>
      rw [getLast?_eq_none_iff.1 hl, if_pos rfl]
      split_ifs <;> rfl
    | some t =>
      have hne : a ≠ [] := by
        rintro rfl
        simp at hl
      rw [if_neg (by simp : ¬ some t = none), head?_append_of_ne_nil _ hne]
      have hhead := h.head
      rw [head?_append_of_ne_nil _ hne] at hhead
      split_ifs <;> exact hhead
  · rw [Links.remove, Links.setPrev_root, Links.setNext_root, hprev, hnext]
    cases hl : b.head? with
    | none => simp [head?_eq_none_iff.1 hl]
    | some t =>
      have hne : b ≠ [] := by
        rintro rfl
        simp at hl
      have hlast := h.last
      rw [getLast?_append_of_ne_nil _ (by simp), getLast?_cons_of_ne_nil hne] at hlast
      rw [if_neg (by simp), getLast?_append_of_ne_nil _ hne]
      split_ifs <;> exact hlast
  · -- a member of `b` may get a new predecessor, a member of `a` a new successor
    have hinb : ∀ c x l₂, b = c ++ x :: l₂ → (s.remove m).entry x = ⟨(a ++ c).getLast?, l₂.head?⟩ := by
      rintro c x l₂ rfl
      have hx := h.entry (a ++ m :: c) x l₂ (by simp)
      have hxa : a.getLast? ≠ some x := fun hlast =>
        hdisj x (mem_of_getLast? hlast) (by simp)
      rw [remove_entry, hprev, hnext, hx, if_neg hxa]
      have hbnodup : (c ++ x :: l₂).Nodup := (nodup_append.1 hab).2.1
      cases c with
      | nil => simp
      | cons y c =>
        rw [if_neg fun hhead => absurd ((head_eq_iff hbnodup).1 hhead) (by simp)]
        simp
    have hina : ∀ l₁ x c, a = l₁ ++ x :: c → (s.remove m).entry x = ⟨l₁.getLast?, (c ++ b).head?⟩ := by
      rintro l₁ x c rfl
      have hx := h.entry l₁ x (c ++ m :: b) (by simp)
      have hxb : b.head? ≠ some x := fun hhead => hdisj x (by simp) (mem_of_head? hhead)
      rw [remove_entry, hprev, hnext, hx, if_neg hxb]
      have hanodup : (l₁ ++ x :: c).Nodup := (nodup_append.1 hab).1
      cases c with
      | nil => simp
      | cons y c =>
        rw [if_neg fun hlast => absurd ((getLast_eq_iff hanodup).1 hlast) (by simp)]
        simp
    intro l₁ x l₂ hl
    rcases append_eq_append_iff.1 hl with ⟨c, rfl, hb⟩ | ⟨c, hla, hc⟩
    · exact hinb c x l₂ hb
    · cases c with
      | nil =>
        obtain rfl : a = l₁ := by simpa using hla
        simpa using hinb [] x l₂ (by simpa using hc.symm)
      | cons y c =>
        obtain ⟨rfl, rfl⟩ : x = y ∧ l₂ = c ++ b := by simpa using hc
        exact hina l₁ x c hla

/-! ## Frames -/

lemma pushBack_entry_of_ne (h : IsList s l) (hx : x ∉ l) (hxm : x ≠ m) : (s.pushBack m).entry x = s.entry x := by
  have hlast : s.root.prev ≠ some x := by
    rw [h.last]
    exact fun hl => hx (mem_of_getLast? hl)
  rw [pushBack_entry, if_neg hlast, if_neg hxm]

lemma pushFront_entry_of_ne (h : IsList s l) (hx : x ∉ l) (hxm : x ≠ m) : (s.pushFront m).entry x = s.entry x := by
  have hhead : s.root.next ≠ some x := by
    rw [h.head]
    exact fun hl => hx (mem_of_head? hl)
  rw [pushFront_entry, if_neg hhead, if_neg hxm]

lemma remove_entry_of_ne (h : IsList s l) (hm : m ∈ l) (hx : x ∉ l) : (s.remove m).entry x = s.entry x := by
  obtain ⟨a, b, rfl⟩ := append_of_mem hm
  have hent := h.entry a m b rfl
  have hprev : a.getLast? ≠ some x := fun hl => hx (by simp [mem_of_getLast? hl])
  have hnext : b.head? ≠ some x := fun hl => hx (by simp [mem_of_head? hl])
  rw [remove_entry, hent]
  simp only [if_neg hprev, if_neg hnext]

end Operations

end DList
