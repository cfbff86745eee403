import Mathlib.Data.List.Nodup
import Mathlib.Data.List.Range
import Mathlib.Logic.Equiv.Basic
import Mathlib.Order.Lattice
import Mathlib.Tactic.TypeStar

/-!
# Binary heaps in an array

The node `i > 0` of the implicit tree has the parent `(i - 1) / 2`.  `Ordered P n key`: among the
first `n` cells no node is below a parent that satisfies `P`.  `Sinking` is this order but for the
edges that leave one hole, `Rising` but for the edge that enters it; exchanging the hole with its
least child, or with its parent, moves the hole down or up.

An array is the function from indices to cells; what sifting does to it is a permutation of the
indices that fixes all but the nodes under the hole.
-/

namespace ReactorServer.Lib.BinaryHeap

variable {α β : Type*} [LinearOrder β] {P : ℕ → Prop} {key : ℕ → β} {n hole c i r : ℕ}

/-- The parents that satisfy `P` are not above their children. -/
def Ordered (P : ℕ → Prop) (n : ℕ) (key : ℕ → β) : Prop :=
  ∀ i, 0 < i → i < n → P ((i - 1) / 2) → key ((i - 1) / 2) ≤ key i

theorem Ordered.root_le (h : Ordered (fun _ => True) n key) (hi : i < n) : key 0 ≤ key i := by
  induction i using Nat.strong_induction_on with
  | h i ih =>
    rcases Nat.eq_zero_or_pos i with rfl | hpos
    · exact le_rfl
    · exact (ih ((i - 1) / 2) (by omega) (by omega)).trans (h i hpos hi trivial)

theorem Ordered.mono {Q : ℕ → Prop} (h : Ordered P n key) (hQ : ∀ i, Q i → P i) :
    Ordered Q n key :=
  fun i hpos hi hq => h i hpos hi (hQ _ hq)

theorem Ordered.congr {key' : ℕ → β} (h : Ordered P n key) (hkey : ∀ i, i < n → key' i = key i) :
    Ordered P n key' := by
  intro i hpos hi hp
  rw [hkey i hi, hkey _ (by omega)]
  exact h i hpos hi hp

/-! ### Sinking -/

/-- `P` holds of the children of a node it holds of. -/
def Hereditary (P : ℕ → Prop) : Prop := ∀ i, 0 < i → P ((i - 1) / 2) → P i

/-- Heap order, but for the children of `hole`, which are not below its parent. -/
structure Sinking (P : ℕ → Prop) (n : ℕ) (key : ℕ → β) (hole : ℕ) : Prop where
  edge : ∀ i, 0 < i → i < n → P ((i - 1) / 2) → (i - 1) / 2 ≠ hole → key ((i - 1) / 2) ≤ key i
  skip : ∀ i, 0 < i → i < n → (i - 1) / 2 = hole → 0 < hole → P ((hole - 1) / 2) →
    key ((hole - 1) / 2) ≤ key i

/-- The hole has come to rest. -/
theorem Sinking.stop (h : Sinking P n key hole)
    (hle : ∀ i, 0 < i → i < n → (i - 1) / 2 = hole → key hole ≤ key i) : Ordered P n key := by
  intro i hpos hi hp
  by_cases hh : (i - 1) / 2 = hole
  · rw [hh]; exact hle i hpos hi hh
  · exact h.edge i hpos hi hp hh

/-- The hole goes down to its least child. -/
theorem Sinking.swap (hP : Hereditary P) (h : Sinking P n key hole) (hpos : 0 < c) (hc : c < n)
    (hpar : (c - 1) / 2 = hole)
    (hleast : ∀ i, 0 < i → i < n → (i - 1) / 2 = hole → key c ≤ key i) (hlt : key c < key hole) :
    Sinking P n (key ∘ Equiv.swap hole c) c where
  edge := by
    intro i hi hin hp hne
    show key (Equiv.swap hole c _) ≤ key (Equiv.swap hole c _)
    by_cases hph : (i - 1) / 2 = hole
    · rw [hph, Equiv.swap_apply_left]
      by_cases hic : i = c
      · rw [hic, Equiv.swap_apply_right]; exact hlt.le
      · rw [Equiv.swap_apply_of_ne_of_ne (by omega) hic]
        exact hleast i hi hin hph
    · rw [Equiv.swap_apply_of_ne_of_ne hph hne]
      by_cases hih : i = hole
      · subst hih
        rw [Equiv.swap_apply_left]
        exact h.skip c hpos hc hpar hi hp
      · rw [Equiv.swap_apply_of_ne_of_ne hih (by rintro rfl; exact hph hpar)]
        exact h.edge i hi hin hp hph
  skip := by
    intro i hi hin hic _ hp
    show key (Equiv.swap hole c _) ≤ key (Equiv.swap hole c _)
    rw [hpar] at hp ⊢
    rw [Equiv.swap_apply_left, Equiv.swap_apply_of_ne_of_ne (by omega) (by omega)]
    have := h.edge i hi hin (by rw [hic]; exact hP c hpos (by rw [hpar]; exact hp)) (by omega)
    rwa [hic] at this

/-! ### Rising -/

/-- Heap order, but for the parent of `hole`, which is not above the children of `hole`. -/
structure Rising (n : ℕ) (key : ℕ → β) (hole : ℕ) : Prop where
  edge : ∀ i, 0 < i → i < n → i ≠ hole → key ((i - 1) / 2) ≤ key i
  skip : ∀ i, 0 < i → i < n → (i - 1) / 2 = hole → 0 < hole → key ((hole - 1) / 2) ≤ key i

theorem Rising.stop (h : Rising n key hole) (hle : 0 < hole → key ((hole - 1) / 2) ≤ key hole) :
    Ordered (fun _ => True) n key := by
  intro i hpos hi _
  by_cases hh : i = hole
  · subst hh; exact hle hpos
  · exact h.edge i hpos hi hh

/-- The hole goes up to its parent. -/
theorem Rising.swap (h : Rising n key hole) (hpos : 0 < hole) (hn : hole < n)
    (hlt : key hole < key ((hole - 1) / 2)) :
    Rising n (key ∘ Equiv.swap hole ((hole - 1) / 2)) ((hole - 1) / 2) where
  edge := by
    intro i hi hin hne
    show key (Equiv.swap hole _ _) ≤ key (Equiv.swap hole _ _)
    by_cases hih : i = hole
    · subst hih
      rw [Equiv.swap_apply_left, Equiv.swap_apply_right]; exact hlt.le
    · rw [Equiv.swap_apply_of_ne_of_ne hih hne]
      by_cases hph : (i - 1) / 2 = hole
      · rw [hph, Equiv.swap_apply_left]
        exact h.skip i hi hin hph hpos
      · by_cases hpp : (i - 1) / 2 = (hole - 1) / 2
        · rw [hpp, Equiv.swap_apply_right]
          exact hlt.le.trans (hpp ▸ h.edge i hi hin hih)
        · rw [Equiv.swap_apply_of_ne_of_ne hph hpp]
          exact h.edge i hi hin hih
  skip := by
    intro i hi hin hpi hp
    have hup := h.edge ((hole - 1) / 2) hp (by omega) (by omega)
    show key (Equiv.swap hole _ _) ≤ key (Equiv.swap hole _ _)
    rw [Equiv.swap_apply_of_ne_of_ne (by omega) (by omega)]
    by_cases hih : i = hole
    · rw [hih, Equiv.swap_apply_left]; exact hup
    · rw [Equiv.swap_apply_of_ne_of_ne hih (by omega)]
      exact hup.trans (hpi ▸ h.edge i hi hin hih)

/-! ### What sifting moves -/

/-- `i` is a node of the subtree under `r`. -/
inductive Under (r : ℕ) : ℕ → Prop
  | root : Under r r
  | child {i : ℕ} (hpos : 0 < i) (h : Under r ((i - 1) / 2)) : Under r i

theorem Under.le (h : Under r i) : r ≤ i := by
  induction h with
  | root => exact le_rfl
  | child hpos _ ih => omega

theorem Under.lt (h : Under r i) (hne : i ≠ r) : 2 * r < i := by
  cases h with
  | root => exact absurd rfl hne
  | child hpos h =>
    have := h.le
    omega

theorem hereditary_ge : Hereditary (r ≤ ·) := by
  intro i hpos h
  have h' : r ≤ (i - 1) / 2 := h
  show r ≤ i
  omega

/-- Only nodes under `r`, among the first `n`, change places. -/
def Moves (r n : ℕ) (σ : Equiv.Perm ℕ) : Prop := ∀ i, σ i ≠ i → Under r i ∧ i < n

theorem Moves.refl : Moves r n (Equiv.refl ℕ) := fun _ h => absurd rfl h

/-- An exchange with a child, and then moves under the child. -/
theorem Moves.swap {σ : Equiv.Perm ℕ} (h : Moves c n σ) (hpos : 0 < c) (hc : c < n)
    (hpar : (c - 1) / 2 = r) : Moves r n (σ.trans (Equiv.swap r c)) := by
  have hrc : Under r c := .child hpos (by rw [hpar]; exact .root)
  have htrans : ∀ {i}, Under c i → Under r i := by
    intro i hi
    induction hi with
    | root => exact hrc
    | child hp _ ih => exact .child hp ih
  intro i hi
  by_cases hσ : σ i = i
  · rw [Equiv.trans_apply, hσ] at hi
    rcases eq_or_ne i r with rfl | hr
    · exact ⟨.root, by omega⟩
    · rcases eq_or_ne i c with rfl | hic
      · exact ⟨hrc, hc⟩
      · exact absurd (Equiv.swap_apply_of_ne_of_ne hr hic) hi
  · obtain ⟨h1, h2⟩ := h i hσ
    exact ⟨htrans h1, h2⟩

theorem Moves.lt_iff {σ : Equiv.Perm ℕ} (h : Moves r n σ) : σ i < n ↔ i < n := by
  by_cases hσ : σ i = i
  · rw [hσ]
  · have h1 : σ (σ i) ≠ σ i := fun h' => hσ (σ.injective h')
    exact iff_of_true (h _ h1).2 (h _ hσ).2

theorem map_range_perm {σ : Equiv.Perm ℕ} (a : ℕ → α) (hσ : ∀ i, σ i < n ↔ i < n) :
    ((List.range n).map (a ∘ σ)).Perm ((List.range n).map a) := by
  rw [← List.map_map]
  refine List.Perm.map a ?_
  rw [List.perm_ext_iff_of_nodup (List.Nodup.map σ.injective List.nodup_range) List.nodup_range]
  intro i
  rw [List.mem_map, List.mem_range]
  constructor
  · rintro ⟨j, hj, rfl⟩
    exact (hσ j).mpr (List.mem_range.mp hj)
  · intro hi
    refine ⟨σ.symm i, List.mem_range.mpr ?_, σ.apply_symm_apply i⟩
    rw [← hσ, σ.apply_symm_apply]
    exact hi

end ReactorServer.Lib.BinaryHeap
