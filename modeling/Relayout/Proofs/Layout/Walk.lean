/-
# The walk of a permuted buffer

`readWalk` never decodes a position: it turns wheels and keeps one offset.
After `n` steps from the start the wheels show the digits of `n`, the first
wheel running fastest, and the offset is the sum of those digits weighted by
the strides (`turned`, `offsetAt`).  One step keeps this (`advanceWheels_turned`),
so a whole walk reads the elements at those offsets, in order
(`readWalk_turned`).
-/
import Relayout.Proofs.Layout.Position

namespace Relayout

/-! ## The wheels after some steps -/

/-- Wheels of the given extents and strides, turned `n` steps on. -/
def turned : List (Nat × Nat) → Nat → List Wheel
  | [], _ => []
  | (extent, stride) :: axes, n => ⟨extent, stride, n % extent⟩ :: turned axes (n / extent)

/-- The offset that goes with them. -/
def offsetAt : List (Nat × Nat) → Nat → Nat
  | [], _ => 0
  | (extent, stride) :: axes, n => n % extent * stride + offsetAt axes (n / extent)

theorem turned_zero (axes : List (Nat × Nat)) :
    turned axes 0 = axes.map fun (extent, stride) => ⟨extent, stride, 0⟩ := by
  induction axes with
  | nil => rfl
  | cons a axes ih => simp [turned, ih]

theorem offsetAt_zero (axes : List (Nat × Nat)) : offsetAt axes 0 = 0 := by
  induction axes with
  | nil => rfl
  | cons a axes ih => simp [offsetAt, ih]

theorem offsetAt_concat (axes : List (Nat × Nat)) (extent stride n : Nat) :
    offsetAt (axes ++ [(extent, stride)]) n =
      offsetAt axes n + n / elementCount (axes.map Prod.fst) % extent * stride := by
  induction axes generalizing n with
  | nil => simp [offsetAt]
  | cons a axes ih =>
      simp only [List.cons_append, offsetAt, ih, List.map_cons, elementCount_cons,
        Nat.div_div_eq_div_mul]
      omega

/-! ## One step -/

/-- A step turns the wheels by one.  The offset of the wheels behind one that
wraps is all that is left after the wrap. -/
theorem advanceWheels_turned {axes : List (Nat × Nat)} (h : ∀ a ∈ axes, 0 < a.1) (n : Nat) :
    advanceWheels (turned axes n) (offsetAt axes n) =
      .ok (turned axes (n + 1), offsetAt axes (n + 1)) := by
  induction axes generalizing n with
  | nil => rfl
  | cons a axes ih =>
      obtain ⟨extent, stride⟩ := a
      have hpos : 0 < extent := h _ List.mem_cons_self
      have htail := ih (fun b hb => h b (List.mem_cons_of_mem _ hb)) (n / extent)
      have hlt := Nat.mod_lt n hpos
      simp only [turned, offsetAt, advanceWheels]
      by_cases hnext : n % extent + 1 < extent
      · -- the wheel does not wrap
        have hmod : (n + 1) % extent = n % extent + 1 := by
          rw [Nat.add_mod, Nat.mod_eq_of_lt (show 1 < extent by omega),
            Nat.mod_eq_of_lt hnext]
        have hdiv : (n + 1) / extent = n / extent :=
          Nat.succ_div_of_not_dvd fun hd => by
            have := Nat.mod_eq_zero_of_dvd hd
            omega
        rw [if_pos hnext, hmod, hdiv, Nat.succ_mul]
        congr 2
        omega
      · -- the wheel wraps, and the next one steps
        have hlast : n % extent + 1 = extent := by omega
        have hdvd : extent ∣ n + 1 := by
          have hn := Nat.div_add_mod n extent
          exact ⟨n / extent + 1, by rw [Nat.mul_succ]; omega⟩
        have hmod : (n + 1) % extent = 0 := Nat.mod_eq_zero_of_dvd hdvd
        have hdiv : (n + 1) / extent = n / extent + 1 := Nat.succ_div_of_dvd hdvd
        have hfull : n % extent * stride + stride = stride * extent := by
          rw [← Nat.succ_mul, Nat.succ_eq_add_one, hlast, Nat.mul_comm]
        have hrest : n % extent * stride + offsetAt axes (n / extent) + stride -
            stride * extent = offsetAt axes (n / extent) := by omega
        rw [if_neg hnext, if_pos (by omega), hrest, htail, hmod, hdiv]
        simp [bind, Except.bind, pure, Except.pure]

/-! ## A whole walk -/

/-- A walk reads, step by step, what lies at its offsets. -/
theorem readWalk_turned {α : Type} {data : Array α} {axes : List (Nat × Nat)}
    (h : ∀ a ∈ axes, 0 < a.1) {count : Nat} {f : Nat → α} :
    ∀ (n : Nat) (read : List α),
      (∀ i, n ≤ i → i < n + count → data[offsetAt axes i]? = some (f i)) →
      readWalk data count (turned axes n) (offsetAt axes n) read =
        .ok (read.reverse ++ (List.range' n count).map f) := by
  induction count with
  | zero => intro n read _; simp [readWalk]
  | succ count ih =>
      intro n read hdata
      have hrest := ih (n + 1) (f n :: read) fun i hi hi' => hdata i (by omega) (by omega)
      simp only [readWalk, hdata n (Nat.le_refl n) (by omega), advanceWheels_turned h]
      simpa [bind, Except.bind, List.range'_succ] using hrest

/-- The offset of a permuted walk, wheel by wheel from the last axis, is the
weighted multi-index of the position. -/
theorem offsetAt_reverse (extents strides : List Nat) (h : extents.length = strides.length)
    (n : Nat) :
    offsetAt (extents.zip strides).reverse n = dot (multiIndex extents n) strides := by
  induction extents generalizing strides with
  | nil => cases strides <;> simp_all [offsetAt, multiIndex, dot]
  | cons d ds ih =>
      cases strides with
      | nil => simp at h
      | cons w ws =>
          have hlen : ds.length = ws.length := by simpa using h
          have hcount : elementCount ((ds.zip ws).reverse.map Prod.fst) = elementCount ds := by
            rw [List.map_reverse, elementCount_perm (List.reverse_perm _),
              List.map_fst_zip (by omega)]
          simp only [List.zip_cons_cons, List.reverse_cons, offsetAt_concat, hcount,
            ih ws hlen, multiIndex, dot]
          omega

end Relayout
