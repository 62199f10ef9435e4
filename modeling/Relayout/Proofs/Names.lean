/-
# Synthesized names

A synthesized name is read back: it says what it was made for, and it is no
name of a source that keeps away from the reserved prefix.
-/
import Relayout.Graph.Registry

namespace Relayout

/-- A name that begins like the synthesized ones. -/
def Reserved (name : String) : Prop := "TFLITE2ONNX".toList <+: name.toList

instance (name : String) : Decidable (Reserved name) :=
  inferInstanceAs (Decidable ("TFLITE2ONNX".toList <+: name.toList))

theorem reserved_synthesizedName (role subject : String) :
    Reserved (synthesizedName role subject) := by
  refine ⟨"_".toList ++ role.toList ++ "_".toList ++ subject.toList, ?_⟩
  simp [synthesizedName]

theorem synthesizedName_ne_of_not_reserved {name : String} (h : ¬Reserved name)
    (role subject : String) : synthesizedName role subject ≠ name :=
  fun heq => h (heq ▸ reserved_synthesizedName role subject)

theorem synthesizedName_ne_self (role subject : String) :
    synthesizedName role subject ≠ subject := by
  intro h
  have := congrArg String.length h
  simp [synthesizedName] at this

theorem synthesizedName_injective {role a b : String}
    (h : synthesizedName role a = synthesizedName role b) : a = b :=
  (String.append_right_inj _).mp h

/-- A synthesized name says its role, if roles have no underscore. -/
theorem role_eq_of_synthesizedName_eq {role role' a b : String} (h : '_' ∉ role.toList)
    (h' : '_' ∉ role'.toList) (heq : synthesizedName role a = synthesizedName role' b) :
    role = role' := by
  have hread : ∀ {role : String} (subject : String), '_' ∉ role.toList →
      ((synthesizedName role subject).toList.drop 12).takeWhile (· ≠ '_') = role.toList := by
    intro role subject hrole
    have hdrop : (synthesizedName role subject).toList.drop 12 =
        role.toList ++ '_' :: subject.toList := by
      simp [synthesizedName]
    rw [hdrop, List.takeWhile_append_of_pos]
    · simp
    · intro c hc
      simpa using fun heq : c = '_' => hrole (heq ▸ hc)
  have := (hread a h).symm.trans (heq ▸ hread b h')
  exact String.toList_inj.mp this

theorem synthesizedName_transposed_ne_toTranspose (a b : String) :
    synthesizedName "Transposed" a ≠ synthesizedName "ToTranspose" b := fun h =>
  absurd (role_eq_of_synthesizedName_eq (by decide) (by decide) h) (by decide)

theorem synthesizedName_vector_ne_transposed (a b : String) :
    synthesizedName "Vector" a ≠ synthesizedName "Transposed" b := fun h =>
  absurd (role_eq_of_synthesizedName_eq (by decide) (by decide) h) (by decide)

theorem synthesizedName_vector_ne_toTranspose (a b : String) :
    synthesizedName "Vector" a ≠ synthesizedName "ToTranspose" b := fun h =>
  absurd (role_eq_of_synthesizedName_eq (by decide) (by decide) h) (by decide)

theorem synthesizedName_reshape_ne_vector (a b : String) :
    synthesizedName "Reshape" a ≠ synthesizedName "Vector" b := fun h =>
  absurd (role_eq_of_synthesizedName_eq (by decide) (by decide) h) (by decide)

theorem synthesizedName_reshape_ne_transposed (a b : String) :
    synthesizedName "Reshape" a ≠ synthesizedName "Transposed" b := fun h =>
  absurd (role_eq_of_synthesizedName_eq (by decide) (by decide) h) (by decide)

theorem synthesizedName_reshape_ne_toTranspose (a b : String) :
    synthesizedName "Reshape" a ≠ synthesizedName "ToTranspose" b := fun h =>
  absurd (role_eq_of_synthesizedName_eq (by decide) (by decide) h) (by decide)

theorem synthesizedName_ne_empty (role subject : String) : synthesizedName role subject ≠ "" := by
  intro h
  have := congrArg String.toList h
  simp [synthesizedName] at this

end Relayout
