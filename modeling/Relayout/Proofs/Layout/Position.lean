/-
# Positions in a row-major buffer

A buffer of a given shape holds one element per multi-index, the last axis
running fastest.  `position` takes a multi-index to where its element is, `multiIndex`
takes it back; on positions inside the buffer and multi-indices inside
the shape they are inverse to each other.  Everything that is said about a
moved buffer is said through these two.
-/
import Relayout.Layout.Permute

namespace Relayout

/-! ## Counting -/

@[simp] theorem elementCount_nil : elementCount [] = 1 := rfl

@[simp] theorem elementCount_cons (d : Nat) (ds : List Nat) :
    elementCount (d :: ds) = d * elementCount ds := rfl

/-- The order of the axes does not matter for how much a shape holds. -/
theorem elementCount_perm {as bs : List Nat} (h : as.Perm bs) :
    elementCount as = elementCount bs := by
  induction h with
  | nil => rfl
  | cons _ _ ih => simp [ih]
  | swap a b l => simp [Nat.mul_left_comm]
  | trans _ _ ih₁ ih₂ => exact ih₁.trans ih₂

theorem elementCount_pos {ds : List Nat} : 0 < elementCount ds ↔ ∀ d ∈ ds, 0 < d := by
  induction ds with
  | nil => simp
  | cons d ds ih =>
      rw [elementCount_cons, Nat.pos_iff_ne_zero, Nat.mul_ne_zero_iff, ← Nat.pos_iff_ne_zero,
        ← Nat.pos_iff_ne_zero, ih, List.forall_mem_cons]

/-! ## Multi-indices and positions -/

/-- The weighted sum of a multi-index. -/
def dot : List Nat → List Nat → Nat
  | i :: is, w :: ws => i * w + dot is ws
  | _, _ => 0

/-- The position of a multi-index in a row-major buffer. -/
def position (shape index : List Nat) : Nat := dot index (rowMajorStrides shape)

/-- The multi-index at a position of a row-major buffer. -/
def multiIndex : List Nat → Nat → List Nat
  | [], _ => []
  | d :: ds, n => n / elementCount ds % d :: multiIndex ds n

/-- A multi-index that stays inside a shape. -/
def Inside : List Nat → List Nat → Prop
  | [], [] => True
  | i :: is, d :: ds => i < d ∧ Inside is ds
  | _, _ => False

@[simp] theorem length_rowMajorStrides (shape : List Nat) :
    (rowMajorStrides shape).length = shape.length := by
  induction shape with
  | nil => rfl
  | cons _ _ ih => simp [rowMajorStrides, ih]

@[simp] theorem length_multiIndex (shape : List Nat) (n : Nat) :
    (multiIndex shape n).length = shape.length := by
  induction shape with
  | nil => rfl
  | cons _ _ ih => simp [multiIndex, ih]

@[simp] theorem position_nil (index : List Nat) : position [] index = 0 := by
  cases index <;> rfl

@[simp] theorem position_cons (d : Nat) (ds : List Nat) (i : Nat) (is : List Nat) :
    position (d :: ds) (i :: is) = i * elementCount ds + position ds is := rfl

theorem multiIndex_inside {shape : List Nat} (h : ∀ d ∈ shape, 0 < d) (n : Nat) :
    Inside (multiIndex shape n) shape := by
  induction shape with
  | nil => trivial
  | cons d ds ih =>
      exact ⟨Nat.mod_lt _ (h d List.mem_cons_self),
        ih fun e he => h e (List.mem_cons_of_mem _ he)⟩

theorem position_lt : ∀ {shape index : List Nat}, Inside index shape →
    position shape index < elementCount shape
  | [], [], _ => by simp
  | d :: ds, i :: is, h => by
      have htail := position_lt h.2
      calc position (d :: ds) (i :: is)
          = i * elementCount ds + position ds is := rfl
        _ < i * elementCount ds + elementCount ds := by omega
        _ = (i + 1) * elementCount ds := (Nat.succ_mul _ _).symm
        _ ≤ d * elementCount ds := Nat.mul_le_mul_right _ h.1
        _ = elementCount (d :: ds) := rfl

/-- What lies beyond the buffer is not seen by the axes of the buffer. -/
theorem multiIndex_add_mul (shape : List Nat) (n k : Nat) :
    multiIndex shape (k * elementCount shape + n) = multiIndex shape n := by
  induction shape generalizing k with
  | nil => rfl
  | cons d ds ih =>
      have hassoc : k * (d * elementCount ds) = k * d * elementCount ds :=
        (Nat.mul_assoc _ _ _).symm
      simp only [multiIndex, elementCount_cons, hassoc, ih]
      congr 1
      rcases Nat.eq_zero_or_pos (elementCount ds) with hz | hpos
      · simp [hz]
      · rw [Nat.add_comm, Nat.add_mul_div_right _ _ hpos, Nat.add_mul_mod_self_right]

theorem multiIndex_position : ∀ {shape index : List Nat}, Inside index shape →
    multiIndex shape (position shape index) = index
  | [], [], _ => rfl
  | d :: ds, i :: is, h => by
      have htail : position ds is < elementCount ds := position_lt h.2
      have hhead : (i * elementCount ds + position ds is) / elementCount ds = i := by
        rw [Nat.add_comm, Nat.add_mul_div_right _ _ (by omega), Nat.div_eq_of_lt htail,
          Nat.zero_add]
      simp only [multiIndex, position_cons, hhead, Nat.mod_eq_of_lt h.1, multiIndex_add_mul,
        multiIndex_position h.2]

theorem position_multiIndex {shape : List Nat} {n : Nat} (h : n < elementCount shape) :
    position shape (multiIndex shape n) = n := by
  -- the quotient by what is left of the shape is the head of the multi-index
  suffices key : ∀ (shape : List Nat) (n : Nat), 0 < elementCount shape →
      position shape (multiIndex shape n) = n % elementCount shape by
    rw [key shape n (by omega), Nat.mod_eq_of_lt h]
  clear h n
  intro shape
  induction shape with
  | nil => intro n _; simp [Nat.mod_one]
  | cons d ds ih =>
      intro n hpos
      have hds : 0 < elementCount ds := by
        rcases Nat.eq_zero_or_pos (elementCount ds) with hz | hp
        · simp [hz] at hpos
        · exact hp
      simp only [multiIndex, position_cons, ih n hds, elementCount_cons]
      have hmod : n % (d * elementCount ds) =
          n % elementCount ds + elementCount ds * (n / elementCount ds % d) := by
        rw [Nat.mul_comm d, Nat.mod_mul]
      rw [hmod, Nat.mul_comm]
      omega

end Relayout
