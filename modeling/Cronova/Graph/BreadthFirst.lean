import Mathlib.Data.List.Nodup
import Mathlib.Logic.Relation
import Mathlib.Algebra.Order.Ring.Int

/-! Breadth-first search over a graph given by adjacency lists, with fuel. Fuel for
every edge and one more round is enough, on cyclic graphs too: a node is expanded
once. -/
namespace Cronova.Graph
variable {α : Type} [DecidableEq α]

/-- The nodes found from the queue, on top of those already seen. -/
def search (adj : α → List α) : (fuel : Nat) → (seen queue : List α) → List α
  | 0, seen, _ => seen
  | _ + 1, seen, [] => seen
  | fuel + 1, seen, n :: queue =>
    if n ∈ seen then search adj fuel seen queue
    else search adj fuel (seen ++ [n]) (queue ++ adj n)

/-- There is a path, possibly empty. -/
def Reachable (adj : α → List α) : α → α → Prop := Relation.ReflTransGen (fun a b => b ∈ adj a)

/-- The edges that leave the nodes of a list. -/
def edges (adj : α → List α) (l : List α) : Nat := (l.map (fun n => (adj n).length)).sum

/-- No set of nodes has more than `total` edges leaving it. -/
def AtMost (adj : α → List α) (total : Nat) : Prop := ∀ l : List α, l.Nodup → edges adj l ≤ total

/-- A search from `root` in progress. -/
structure Searching (adj : α → List α) (root : α) (total fuel : Nat) (seen queue : List α) : Prop where
  nodup : seen.Nodup
  sound : ∀ n, n ∈ seen ∨ n ∈ queue → Reachable adj root n
  started : root ∈ seen ∨ root ∈ queue
  closed : ∀ n ∈ seen, ∀ m ∈ adj n, m ∈ seen ∨ m ∈ queue
  fuel : queue.length + total ≤ fuel + edges adj seen

namespace Searching
variable {adj : α → List α} {root n : α} {total fuel : Nat} {seen queue : List α}

theorem start (total : Nat) : Searching adj root total (total + 1) [] [root] where
  nodup := List.nodup_nil
  sound m hm := by
    rw [hm.resolve_left List.not_mem_nil |> List.mem_singleton.mp]
    exact .refl
  started := .inr List.mem_cons_self
  closed m hm := absurd hm List.not_mem_nil
  fuel := by
    rw [List.length_singleton, edges]
    omega

theorem skip (h : Searching adj root total (fuel + 1) seen (n :: queue)) (hn : n ∈ seen) :
    Searching adj root total fuel seen queue := by
  have hqueue : ∀ m, m ∈ seen ∨ m ∈ n :: queue → m ∈ seen ∨ m ∈ queue := by
    intro m hm
    rcases hm with hseen | hmem
    · exact .inl hseen
    · rcases List.mem_cons.mp hmem with rfl | hrest
      · exact .inl hn
      · exact .inr hrest
  have hfuel := h.fuel
  rw [List.length_cons] at hfuel
  exact ⟨h.nodup, fun m hm => h.sound m (hm.imp_right (List.mem_cons_of_mem n)), hqueue root h.started,
    fun k hk m hm => hqueue m (h.closed k hk m hm), by omega⟩

theorem expand (h : Searching adj root total (fuel + 1) seen (n :: queue)) (hn : n ∉ seen) :
    Searching adj root total fuel (seen ++ [n]) (queue ++ adj n) := by
  have hmove : ∀ m, m ∈ seen ∨ m ∈ n :: queue → m ∈ seen ++ [n] ∨ m ∈ queue ++ adj n := by
    intro m hm
    rcases hm with hseen | hmem
    · exact .inl (List.mem_append_left _ hseen)
    · rcases List.mem_cons.mp hmem with rfl | hrest
      · exact .inl (List.mem_append_right _ List.mem_cons_self)
      · exact .inr (List.mem_append_left _ hrest)
  have hroot : Reachable adj root n := h.sound n (.inr List.mem_cons_self)
  refine ⟨?_, ?_, hmove root h.started, ?_, ?_⟩
  · refine List.nodup_append.mpr ⟨h.nodup, List.nodup_singleton n, ?_⟩
    rintro a ha b hb rfl
    exact hn (List.mem_singleton.mp hb ▸ ha)
  · intro m hm
    rcases hm with hseen | hqueue
    · rcases List.mem_append.mp hseen with hold | hnew
      · exact h.sound m (.inl hold)
      · rw [List.mem_singleton.mp hnew]
        exact hroot
    · rcases List.mem_append.mp hqueue with hold | hnew
      · exact h.sound m (.inr (List.mem_cons_of_mem n hold))
      · exact hroot.tail hnew
  · intro k hk m hm
    rcases List.mem_append.mp hk with hold | hnew
    · exact hmove m (h.closed k hold m hm)
    · rw [List.mem_singleton.mp hnew] at hm
      exact .inr (List.mem_append_right _ hm)
  · have hfuel := h.fuel
    simp only [edges, List.map_append, List.sum_append, List.map_cons, List.map_nil, List.sum_cons, List.sum_nil,
      List.length_append, List.length_cons] at hfuel ⊢
    omega

/-- A search that has nothing left in its queue has found what is reachable. -/
theorem found (h : Searching adj root total fuel seen []) (m : α) : m ∈ seen ↔ Reachable adj root m := by
  constructor
  · intro hm
    exact h.sound m (.inl hm)
  · intro hm
    induction hm with
    | refl => exact h.started.resolve_right List.not_mem_nil
    | tail _ hedge ih => exact (h.closed _ ih _ hedge).resolve_right List.not_mem_nil

end Searching

theorem mem_search_of_searching {adj : α → List α} {root : α} {total fuel : Nat} {seen queue : List α}
    (hedges : AtMost adj total) (h : Searching adj root total fuel seen queue) (m : α) :
    m ∈ search adj fuel seen queue ↔ Reachable adj root m := by
  induction fuel generalizing seen queue with
  | zero =>
    have hfuel := h.fuel
    have hle := hedges seen h.nodup
    have hempty : queue = [] := List.length_eq_zero_iff.mp (by omega)
    subst hempty
    exact h.found m
  | succ fuel ih =>
    cases queue with
    | nil => exact h.found m
    | cons n queue =>
      rw [search]
      split
      · rename_i hn
        exact ih (h.skip hn)
      · rename_i hn
        exact ih (h.expand hn)

/-- The search finds exactly what is reachable from its root. -/
theorem mem_search {adj : α → List α} {total : Nat} (hedges : AtMost adj total) (root m : α) :
    m ∈ search adj (total + 1) [] [root] ↔ Reachable adj root m :=
  mem_search_of_searching hedges (Searching.start total) m

end Cronova.Graph
