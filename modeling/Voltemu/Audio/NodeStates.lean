import Mathlib.Algebra.Group.Action.Defs
import Mathlib.Algebra.Order.BigOperators.Group.Finset

/-!
# The graph of the mixes and its order

`audio_core/renderer/nodes`: `EdgeMatrix` has one bit for every pair of nodes, `NodeStates` sorts the nodes with a
depth first search that stops at a cycle.

* The index of a bit is computed with `u32` arithmetic from the ids, whatever they are.
* The stack holds a node as often as it was pushed; it is not emptied when a search stops at a cycle.
* `tsort_isSome` — the search comes to its end; `tsort_false` — it fails only if there is a cycle.
-/

namespace Voltemu.Audio

open Function List

/-! ## `EdgeMatrix` -/

def u32 (i : ℤ) : ℕ := (i % 2 ^ 32).toNat

structure EdgeMatrix where
  count : ℕ
  edges : ℕ → Bool

namespace EdgeMatrix

def index (e : EdgeMatrix) (id destination : ℕ) : ℕ := (e.count * id + destination) % 2 ^ 32

def connected (e : EdgeMatrix) (id destination : ℕ) : Bool := e.edges (e.index id destination)

/-- `Connect` and `Disconnect`. -/
def setEdge (e : EdgeMatrix) (id destination : ℕ) (b : Bool) : EdgeMatrix :=
  { e with edges := update e.edges (e.index id destination) b }

def removeEdges (e : EdgeMatrix) (id : ℕ) : EdgeMatrix :=
  (List.range e.count).foldl (fun e destination => e.setEdge id destination false) e

def Edge (e : EdgeMatrix) (i j : ℕ) : Prop := i < e.count ∧ j < e.count ∧ e.connected i j = true

end EdgeMatrix

/-! ## `NodeStates` -/

inductive SearchState
  | unknown
  | found
  | complete
deriving DecidableEq

/-- `NodeStates`: the top of the stack comes first, the results in the order in which they are pushed. -/
structure NodeStates where
  nodeCount : ℕ
  state : ℕ → SearchState
  stack : List ℕ
  results : List ℕ

namespace NodeStates

def resetState (ns : NodeStates) : NodeStates := { ns with state := fun _ => .unknown, results := [] }

/-- The edges of the current node: the stack, and whether none of them closes a cycle. -/
def pushEdges (connected : ℕ → Bool) (state : ℕ → SearchState) : List ℕ → List ℕ → List ℕ × Bool
  | [], stack => (stack, true)
  | edge :: edges, stack =>
      if !connected edge then pushEdges connected state edges stack
      else match state edge with
        | .unknown => pushEdges connected state edges (edge :: stack)
        | .found => (stack, false)
        | .complete => pushEdges connected state edges stack

/-- The inner loop of `DepthFirstSearch`, until the stack is empty or a cycle is found. -/
def searchLoop (e : EdgeMatrix) : ℕ → NodeStates → Option (NodeStates × Bool)
  | 0, ns => if ns.stack = [] then some (ns, true) else none
  | fuel + 1, ns =>
      match ns.stack with
      | [] => some (ns, true)
      | current :: rest =>
          match ns.state current with
          | .unknown =>
              let state := update ns.state current .found
              let q := pushEdges (e.connected current) state (List.range e.count) ns.stack
              if q.2 then searchLoop e fuel { ns with state := state, stack := q.1 }
              else some ({ ns with state := state, stack := q.1 }, false)
          | .found => searchLoop e fuel
              { ns with
                state := update ns.state current .complete
                results := ns.results ++ [current]
                stack := rest }
          | .complete => searchLoop e fuel { ns with stack := rest }

/-- The outer loop of `DepthFirstSearch`. -/
def searchFrom (e : EdgeMatrix) (fuel : ℕ) : List ℕ → NodeStates → Option (NodeStates × Bool)
  | [], ns => some (ns, true)
  | id :: ids, ns =>
      let ns := if ns.state id = .unknown then { ns with stack := id :: ns.stack } else ns
      (searchLoop e fuel ns).bind fun (ns, ok) =>
        if ok then searchFrom e fuel ids ns else some (ns.resetState, false)

/-- **`Tsort`.**  A node is found and completed once, and pushes every node at most once. -/
def tsort (ns : NodeStates) (e : EdgeMatrix) : Option (NodeStates × Bool) :=
  searchFrom e (ns.nodeCount * (ns.nodeCount + 2) + ns.stack.length + 1) (List.range ns.nodeCount) ns.resetState

/-! ## A node that is found is on the way to the current one -/

/-- The stack and, within it, the nodes that are found: each of them is an edge away from the one below, and so
is what waits between them. -/
inductive Trail (edge : ℕ → ℕ → Prop) : List ℕ → List ℕ → Prop
  | nil : Trail edge [] []
  | wait {x : ℕ} {stack way : List ℕ} (h : Trail edge stack way) (hx : x ∉ way)
      (hedge : ∀ f, way.head? = some f → edge f x) : Trail edge (x :: stack) way
  | found {x : ℕ} {stack way : List ℕ} (h : Trail edge stack way) (hx : x ∉ way)
      (hedge : ∀ f, way.head? = some f → edge f x) : Trail edge (x :: stack) (x :: way)

section Trail

variable {edge : ℕ → ℕ → Prop} {stack way : List ℕ} {x : ℕ}

/-- At first everything waits. -/
lemma Trail.of_stack (edge : ℕ → ℕ → Prop) (stack : List ℕ) : Trail edge stack [] := by
  induction stack with
  | nil => exact .nil
  | cons x stack ih => exact .wait ih not_mem_nil (by simp)

/-- What is found leads to what was found last. -/
lemma Trail.reaches (h : Trail edge stack (x :: way)) {y : ℕ} (hy : y ∈ x :: way) :
    Relation.ReflTransGen edge y x := by
  generalize hw : x :: way = w at h hy
  induction h generalizing x way with
  | nil => simp at hw
  | wait _ _ _ ih => exact ih hw hy
  | @found z stack' way' h' hz hedge ih =>
    obtain ⟨rfl, rfl⟩ := cons.inj hw
    rcases mem_cons.1 hy with rfl | hy
    · exact .refl
    · cases way with
      | nil => simp at hy
      | cons f way => exact (ih rfl hy).tail (hedge f rfl)

lemma Trail.of_waiting (h : Trail edge (x :: stack) way) (hx : x ∉ way) :
    Trail edge stack way ∧ ∀ f, way.head? = some f → edge f x := by
  cases h with
  | wait h _ hedge => exact ⟨h, hedge⟩
  | found h _ _ => simp at hx

lemma Trail.of_found (h : Trail edge (x :: stack) way) (hx : x ∈ way) :
    ∃ way', way = x :: way' ∧ Trail edge stack way' ∧ x ∉ way' := by
  cases h with
  | wait h hx' _ => exact absurd hx hx'
  | @found _ _ way' h hx' _ => exact ⟨way', rfl, h, hx'⟩

end Trail

/-- **In the middle of a search.** -/
structure Searching (e : EdgeMatrix) (ns : NodeStates) (way : List ℕ) : Prop where
  count : e.count = ns.nodeCount
  trail : Trail e.Edge ns.stack way
  found : ∀ y, ns.state y = .found ↔ y ∈ way
  range : ∀ x ∈ ns.stack, x < ns.nodeCount

section Search

variable {e : EdgeMatrix} {ns : NodeStates} {way : List ℕ}

lemma pushEdges_trail {current : ℕ} {state : ℕ → SearchState} {edges stack : List ℕ}
    (htrail : Trail e.Edge stack (current :: way)) (hcurrent : current < e.count)
    (hfound : ∀ y, state y = .found ↔ y ∈ current :: way) (hedges : ∀ y ∈ edges, y < e.count)
    (hrange : ∀ x ∈ stack, x < e.count) :
    (∀ x ∈ (pushEdges (e.connected current) state edges stack).1, x < e.count) ∧
    ((pushEdges (e.connected current) state edges stack).2 = true →
      Trail e.Edge (pushEdges (e.connected current) state edges stack).1 (current :: way)) ∧
    ((pushEdges (e.connected current) state edges stack).2 = false → ∃ x, Relation.TransGen e.Edge x x) := by
  induction edges generalizing stack with
  | nil => exact ⟨hrange, fun _ => htrail, fun h => by simp [pushEdges] at h⟩
  | cons y edges ih =>
    have hy : y < e.count := hedges y mem_cons_self
    have hrest : ∀ z ∈ edges, z < e.count := fun z hz => hedges z (mem_cons_of_mem _ hz)
    unfold pushEdges
    by_cases hconnected : e.connected current y = true
    · have hedge : e.Edge current y := ⟨hcurrent, hy, hconnected⟩
      simp only [hconnected, Bool.not_true, Bool.false_eq_true, if_false]
      cases hstate : state y with
      | unknown =>
        have hnew : y ∉ current :: way := fun hmem => by
          rw [(hfound y).2 hmem] at hstate
          simp at hstate
        refine ih (.wait htrail hnew fun f hf => ?_) hrest fun x hx => ?_
        · obtain rfl : current = f := by simpa using hf
          exact hedge
        · rcases mem_cons.1 hx with rfl | hx
          · exact hy
          · exact hrange x hx
      | found =>
        refine ⟨hrange, fun h => by simp at h, fun _ => ⟨current, ?_⟩⟩
        exact .trans_left (.single hedge) (htrail.reaches ((hfound y).1 hstate))
      | complete => exact ih htrail hrest hrange
    · simp only [hconnected, Bool.not_false, if_true]
      exact ih htrail hrest hrange

section

variable (h : Searching e ns way)
include h

lemma Searching.of_empty (hstack : ns.stack = []) : Searching e ns [] := by
  obtain rfl : way = [] := by
    have htrail := h.trail
    rw [hstack] at htrail
    cases htrail
    rfl
  exact h

variable {current : ℕ} {rest : List ℕ}

lemma Searching.find (hstack : ns.stack = current :: rest) (hstate : ns.state current = .unknown) :
    Searching e { ns with state := update ns.state current .found } (current :: way) := by
  have hnew : current ∉ way := fun hmem => by
    rw [(h.found current).2 hmem] at hstate
    simp at hstate
  refine ⟨h.count, ?_, fun y => ?_, h.range⟩
  · have htrail := h.trail
    rw [hstack] at htrail
    obtain ⟨hrest, hedge⟩ := htrail.of_waiting hnew
    change Trail e.Edge ns.stack (current :: way)
    rw [hstack]
    exact .found hrest hnew hedge
  · by_cases hy : y = current
    · subst hy
      simp
    · simp [h.found y, hy]

lemma Searching.expand (hstack : ns.stack = current :: rest) (hstate : ns.state current = .unknown) {q : List ℕ × Bool}
    (hq : pushEdges (e.connected current) (update ns.state current .found) (List.range e.count) (current :: rest) = q) :
    (∀ x ∈ q.1, x < ns.nodeCount) ∧
      (q.2 = true → Searching e
        { ns with state := update ns.state current .found, stack := q.1 } (current :: way)) ∧
      (q.2 = false → ∃ x, Relation.TransGen e.Edge x x) := by
  have hfind := h.find hstack hstate
  have hrange : ∀ x ∈ current :: rest, x < e.count := fun x hx => by
    rw [h.count]
    exact h.range x (by rwa [hstack])
  have htrail := hfind.trail
  change Trail e.Edge ns.stack (current :: way) at htrail
  rw [hstack] at htrail
  obtain ⟨hrange', htrue, hfalse⟩ := pushEdges_trail htrail (hrange current mem_cons_self) hfind.found
    (fun y hy => mem_range.1 hy) hrange
  subst hq
  have hstackRange := fun x hx => lt_of_lt_of_eq (hrange' x hx) h.count
  exact ⟨hstackRange, fun hok => ⟨h.count, htrue hok, hfind.found, hstackRange⟩, hfalse⟩

lemma Searching.complete (hstack : ns.stack = current :: rest) (hstate : ns.state current = .found) :
    ∃ way', Searching e
      { ns with
        state := update ns.state current .complete
        results := ns.results ++ [current]
        stack := rest } way' := by
  have htrail := h.trail
  rw [hstack] at htrail
  obtain ⟨way', rfl, hrest, hnew⟩ := htrail.of_found ((h.found current).1 hstate)
  refine ⟨way', h.count, hrest, fun y => ?_, fun x hx => h.range x ?_⟩
  · by_cases hy : y = current
    · subst hy
      simp [hnew]
    · simp [h.found y, hy]
  · rw [hstack]
    exact mem_cons_of_mem _ hx

lemma Searching.pop (hstack : ns.stack = current :: rest) (hstate : ns.state current = .complete) :
    Searching e { ns with stack := rest } way := by
  have htrail := h.trail
  rw [hstack] at htrail
  have hnew : current ∉ way := fun hmem => by
    rw [(h.found current).2 hmem] at hstate
    simp at hstate
  refine ⟨h.count, (htrail.of_waiting hnew).1, h.found, fun x hx => h.range x ?_⟩
  rw [hstack]
  exact mem_cons_of_mem _ hx

/-- **The inner loop** stops at a cycle, or with an empty stack. -/
lemma searchLoop_sound {fuel : ℕ} {r : NodeStates × Bool} (hr : searchLoop e fuel ns = some r) :
    (∀ x ∈ r.1.stack, x < ns.nodeCount) ∧ r.1.nodeCount = ns.nodeCount ∧
      (r.2 = true → Searching e r.1 [] ∧ r.1.stack = []) ∧
      (r.2 = false → ∃ x, Relation.TransGen e.Edge x x) := by
  induction fuel generalizing ns way with
  | zero =>
    unfold searchLoop at hr
    split_ifs at hr with hstack
    obtain rfl := Option.some.inj hr
    exact ⟨h.range, rfl, fun _ => ⟨h.of_empty hstack, hstack⟩, fun h => by simp at h⟩
  | succ fuel ih =>
    unfold searchLoop at hr
    cases hstack : ns.stack with
    | nil =>
      simp only [hstack] at hr
      obtain rfl := Option.some.inj hr
      exact ⟨h.range, rfl, fun _ => ⟨h.of_empty hstack, hstack⟩, fun h => by simp at h⟩
    | cons current rest =>
      simp only [hstack] at hr
      cases hstate : ns.state current with
      | unknown =>
        simp only [hstate] at hr
        generalize hq : pushEdges (e.connected current) (update ns.state current .found)
          (List.range e.count) (current :: rest) = q at hr
        obtain ⟨hrange, htrue, hfalse⟩ := h.expand hstack hstate hq
        split_ifs at hr with hok
        · have hsound := ih (htrue hok) hr
          exact hsound
        · obtain rfl := Option.some.inj hr
          exact ⟨hrange, rfl, fun h => by simp at h, fun _ => hfalse (by simpa using hok)⟩
      | found =>
        simp only [hstate] at hr
        obtain ⟨way', hway'⟩ := h.complete hstack hstate
        have hsound := ih hway' hr
        exact hsound
      | complete =>
        simp only [hstate] at hr
        have hsound := ih (h.pop hstack hstate) hr
        exact hsound

end

lemma Searching.push (h : Searching e ns []) {id : ℕ} (hid : id < ns.nodeCount) :
    Searching e { ns with stack := id :: ns.stack } [] := by
  refine ⟨h.count, .of_stack _ _, h.found, fun x hx => ?_⟩
  rcases mem_cons.1 hx with rfl | hx
  · exact hid
  · exact h.range x hx

lemma searchFrom_sound {fuel : ℕ} {ids : List ℕ} (h : Searching e ns [])
    (hids : ∀ id ∈ ids, id < ns.nodeCount) {r : NodeStates × Bool}
    (hr : searchFrom e fuel ids ns = some r) :
    (∀ x ∈ r.1.stack, x < ns.nodeCount) ∧ r.1.nodeCount = ns.nodeCount ∧
      (r.2 = false → ∃ x, Relation.TransGen e.Edge x x) := by
  induction ids generalizing ns with
  | nil =>
    obtain rfl := Option.some.inj hr
    exact ⟨h.range, rfl, fun h => by simp at h⟩
  | cons id ids ih =>
    unfold searchFrom at hr
    obtain ⟨⟨ns1, ok⟩, hloop, hr⟩ := Option.bind_eq_some_iff.1 hr
    have hroot : Searching e
        (if ns.state id = .unknown then { ns with stack := id :: ns.stack } else ns) [] := by
      split_ifs
      · exact h.push (hids id mem_cons_self)
      · exact h
    have hcount : (if ns.state id = .unknown then { ns with stack := id :: ns.stack } else ns).nodeCount =
        ns.nodeCount := by split_ifs <;> rfl
    obtain ⟨hrange, hcount1, htrue, hfalse⟩ := searchLoop_sound hroot hloop
    rw [hcount] at hrange hcount1
    dsimp only at hrange hcount1 htrue hfalse hr
    cases ok with
    | true =>
      simp only [if_true] at hr
      have := ih (htrue rfl).1 (fun j hj => hcount1 ▸ hids j (mem_cons_of_mem _ hj)) hr
      rwa [hcount1] at this
    | false =>
      simp only [Bool.false_eq_true, if_false] at hr
      obtain rfl := Option.some.inj hr
      exact ⟨hrange, hcount1, fun _ => hfalse rfl⟩

section

variable (hcount : e.count = ns.nodeCount) (hstack : ∀ x ∈ ns.stack, x < ns.nodeCount)
include hcount hstack

lemma searching_reset : Searching e ns.resetState [] :=
  ⟨hcount, .of_stack _ _, fun y => by simp [resetState], hstack⟩

lemma tsort_false {r : NodeStates × Bool} (hr : ns.tsort e = some r) :
    (∀ x ∈ r.1.stack, x < ns.nodeCount) ∧ r.1.nodeCount = ns.nodeCount ∧
      (r.2 = false → ∃ x, Relation.TransGen e.Edge x x) :=
  searchFrom_sound (searching_reset hcount hstack) (fun _ hid => mem_range.1 hid) hr

end

end Search

/-! ## The search comes to its end -/

/-- What a node can still cost. -/
def weight (n : ℕ) : SearchState → ℕ
  | .unknown => n + 2
  | .found => 1
  | .complete => 0

lemma weight_unknown (n : ℕ) : weight n .unknown = n + 2 := rfl

lemma weight_found (n : ℕ) : weight n .found = 1 := rfl

lemma weight_complete (n : ℕ) : weight n .complete = 0 := rfl

/-- What the search can still cost. -/
def cost (ns : NodeStates) : ℕ :=
  ∑ i ∈ Finset.range ns.nodeCount, weight ns.nodeCount (ns.state i) + ns.stack.length

section Cost

variable {e : EdgeMatrix} {ns : NodeStates}

lemma sum_update {n current : ℕ} (h : current < n) (state : ℕ → SearchState) (new : SearchState) :
    ∑ i ∈ Finset.range n, weight n (update state current new i) + weight n (state current) =
      ∑ i ∈ Finset.range n, weight n (state i) + weight n new := by
  have hmem : current ∈ Finset.range n := Finset.mem_range.2 h
  rw [← Finset.sum_erase_add _ _ hmem, ← Finset.sum_erase_add _ _ hmem, update_self]
  have hsame : ∑ i ∈ (Finset.range n).erase current, weight n (update state current new i) =
      ∑ i ∈ (Finset.range n).erase current, weight n (state i) := by
    refine Finset.sum_congr rfl fun i hi => ?_
    rw [update_of_ne (Finset.ne_of_mem_erase hi)]
  rw [hsame]
  omega

lemma pushEdges_length (connected : ℕ → Bool) (state : ℕ → SearchState) (edges stack : List ℕ) :
    (pushEdges connected state edges stack).1.length ≤ stack.length + edges.length := by
  induction edges generalizing stack with
  | nil => simp [pushEdges]
  | cons y edges ih =>
    unfold pushEdges
    have hpush := ih (y :: stack)
    have hsame := ih stack
    simp only [length_cons] at hpush ⊢
    split_ifs
    · omega
    · cases state y with
      | unknown => exact hpush.trans (by omega)
      | found => exact Nat.le_add_right _ _
      | complete => exact hsame.trans (by omega)

lemma searchLoop_isSome {fuel : ℕ} {way : List ℕ} (h : Searching e ns way) (hfuel : ns.cost ≤ fuel) :
    (searchLoop e fuel ns).isSome = true := by
  induction fuel generalizing ns way with
  | zero =>
    have hstack : ns.stack = [] := by
      rw [cost] at hfuel
      exact eq_nil_of_length_eq_zero (by omega)
    simp [searchLoop, hstack]
  | succ fuel ih =>
    unfold searchLoop
    cases hstack : ns.stack with
    | nil => rfl
    | cons current rest =>
      have hcurrent : current < ns.nodeCount := h.range current (by simp [hstack])
      have hcost : ns.cost = ∑ i ∈ Finset.range ns.nodeCount, weight ns.nodeCount (ns.state i) +
          (rest.length + 1) := by rw [cost, hstack, length_cons]
      cases hstate : ns.state current with
      | unknown =>
        have hlength := pushEdges_length (e.connected current)
          (update ns.state current .found) (List.range e.count) (current :: rest)
        rw [length_range, length_cons] at hlength
        have hsum := sum_update hcurrent ns.state .found
        simp only [hstate]
        generalize hq : pushEdges (e.connected current) (update ns.state current .found)
          (List.range e.count) (current :: rest) = q at hlength ⊢
        split_ifs with hok
        · refine ih ((h.expand hstack hstate hq).2.1 hok) ?_
          have hcount := h.count
          simp only [cost, hstate, weight_unknown, weight_found] at hsum ⊢
          omega
        · rfl
      | found =>
        obtain ⟨way', hway'⟩ := h.complete hstack hstate
        have hsum := sum_update hcurrent ns.state .complete
        simp only [hstate]
        refine ih hway' ?_
        simp only [cost, hstate, weight_found, weight_complete] at hsum ⊢
        omega
      | complete =>
        simp only [hstate]
        refine ih (h.pop hstack hstate) ?_
        simp only [cost]
        omega

lemma cost_le (ns : NodeStates) : ns.cost ≤ ns.nodeCount * (ns.nodeCount + 2) + ns.stack.length := by
  have hsum : ∑ i ∈ Finset.range ns.nodeCount, weight ns.nodeCount (ns.state i) ≤
      ∑ _i ∈ Finset.range ns.nodeCount, (ns.nodeCount + 2) := by
    refine Finset.sum_le_sum fun i _ => ?_
    cases ns.state i <;> simp [weight]
  rw [Finset.sum_const, Finset.card_range, smul_eq_mul] at hsum
  rw [cost]
  omega

lemma searchFrom_isSome {fuel : ℕ} {ids : List ℕ} (h : Searching e ns []) (hids : ∀ id ∈ ids, id < ns.nodeCount)
    (hfuel : ns.nodeCount * (ns.nodeCount + 2) + ns.stack.length + 1 ≤ fuel) :
    (searchFrom e fuel ids ns).isSome = true := by
  induction ids generalizing ns with
  | nil => rfl
  | cons id ids ih =>
    have hroot : Searching e
        (if ns.state id = .unknown then { ns with stack := id :: ns.stack } else ns) [] := by
      split_ifs
      · exact h.push (hids id mem_cons_self)
      · exact h
    have hcost : (if ns.state id = .unknown then { ns with stack := id :: ns.stack } else ns).cost ≤
        fuel := by
      refine (cost_le _).trans ?_
      split_ifs
      · simpa [Nat.add_assoc] using hfuel
      · omega
    have hcount : (if ns.state id = .unknown then { ns with stack := id :: ns.stack } else ns).nodeCount =
        ns.nodeCount := by split_ifs <;> rfl
    unfold searchFrom
    obtain ⟨⟨ns1, ok⟩, hloop⟩ := Option.isSome_iff_exists.1 (searchLoop_isSome hroot hcost)
    obtain ⟨-, hcount1, htrue, -⟩ := searchLoop_sound hroot hloop
    rw [hcount] at hcount1
    simp only [hloop, Option.bind_some]
    cases ok with
    | true =>
      obtain ⟨hsearching, hstack⟩ := htrue rfl
      dsimp only at hsearching hstack hcount1
      refine ih hsearching (fun j hj => hcount1 ▸ hids j (mem_cons_of_mem _ hj)) ?_
      rw [hcount1, hstack, length_nil]
      omega
    | false => rfl

lemma tsort_isSome (hcount : e.count = ns.nodeCount) (hstack : ∀ x ∈ ns.stack, x < ns.nodeCount) :
    (ns.tsort e).isSome = true :=
  searchFrom_isSome (searching_reset hcount hstack) (fun _ hid => mem_range.1 hid) (le_refl _)

end Cost

end NodeStates

end Voltemu.Audio
