/-
# Names and identifiers

A registration writes two structures: the arena, whose entries know their identifier and
their name, and the table of names.  `Directory` is what the two hold of names and
identifiers.  They belong together (`Consistent`) as long as no name is registered that the
table finds already: such a registration would go over the first one in the table, while
the arena keeps both.
-/
import Mathlib.Logic.Relation
import Relayout.Proofs.Graph.Edit

namespace Relayout

/-! ## Two structures -/

/-- The identifiers and names of an arena, in order of creation, and the table of names. -/
structure Directory where
  entries : List (TensorId × String)
  byName : SortedMap TensorId
deriving DecidableEq

namespace Directory

def empty : Directory := ⟨[], .empty⟩

/-- A name gets the next identifier, in both structures. -/
def register (d : Directory) (name : String) : Directory where
  entries := d.entries ++ [(⟨d.entries.length⟩, name)]
  byName := d.byName.insert name ⟨d.entries.length⟩

/-- A name is registered that the table does not find yet. -/
def Enters (d e : Directory) : Prop := ∃ name, d.byName.find? name = none ∧ e = d.register name

/-- An entry stands at its identifier, and the table leads every name to its entry. -/
structure Consistent (d : Directory) : Prop where
  ids : ∀ {i : Nat} {id : TensorId} {name : String}, d.entries[i]? = some (id, name) → id = ⟨i⟩
  finds : ∀ (name : String) (id : TensorId),
    d.byName.find? name = some id ↔ d.entries[id.index]? = some (id, name)

variable {d e : Directory} {name : String} {id : TensorId}

theorem consistent_empty : empty.Consistent where
  ids := fun h => by cases h
  finds := fun _ _ => by simp [empty]

/-! ## One registration -/

/-- A name, once bound, keeps its identifier. -/
theorem Enters.find? (h : d.Enters e) (hid : d.byName.find? name = some id) :
    e.byName.find? name = some id := by
  obtain ⟨new, hnew, rfl⟩ := h
  have hne : name ≠ new := by
    rintro rfl
    rw [hid] at hnew
    cases hnew
  rw [register, SortedMap.find?_insert, if_neg hne, hid]

theorem Enters.consistent (h : d.Enters e) (hd : d.Consistent) : e.Consistent := by
  obtain ⟨new, hnew, rfl⟩ := h
  constructor
  · intro i id name hi
    rcases getElem?_concat_cases hi with hi | ⟨rfl, heq⟩
    · exact hd.ids hi
    · cases heq
      rfl
  · intro name id
    rw [register, SortedMap.find?_insert]
    by_cases hname : name = new
    · -- the new name stands nowhere else in the arena
      subst hname
      rw [if_pos rfl]
      constructor
      · rintro ⟨⟩
        exact List.getElem?_concat_length
      · intro hid
        rcases getElem?_concat_cases hid with hid | ⟨-, heq⟩
        · rw [(hd.finds name id).mpr hid] at hnew
          cases hnew
        · cases heq
          rfl
    · rw [if_neg hname, hd.finds]
      constructor
      · intro hid
        rw [List.getElem?_append_left (List.getElem?_eq_some_iff.mp hid).1, hid]
      · intro hid
        rcases getElem?_concat_cases hid with hid | ⟨-, heq⟩
        · exact hid
        · cases heq
          exact absurd rfl hname

/-! ## Any registrations -/

/-- New names are registered, one after the other. -/
def Grows : Directory → Directory → Prop := Relation.ReflTransGen Enters

theorem Grows.find? (h : d.Grows e) (hid : d.byName.find? name = some id) :
    e.byName.find? name = some id := by
  induction h with
  | refl => exact hid
  | tail _ hlast ih => exact hlast.find? ih

theorem Grows.consistent (h : d.Grows e) (hd : d.Consistent) : e.Consistent := by
  induction h with
  | refl => exact hd
  | tail _ hlast ih => exact hlast.consistent ih

end Directory

/-! ## The directory of a graph -/

/-- The identifier in the 32 bits that are there to hold it. -/
def TensorId.word (id : TensorId) : UInt32 := .ofNat id.index

namespace Graph

variable {g : Graph}

/-- What the arena and the table hold of names and identifiers. -/
def directory (g : Graph) : Directory where
  entries := g.tensors.map fun t => (t.id, t.name)
  byName := g.byName

theorem length_entries_directory (g : Graph) :
    g.directory.entries.length = g.tensors.length := List.length_map _

/-- One more tensor, put at its identifier, is one more registration. -/
theorem directory_adding {t : Tensor} (h : t.id = ⟨g.tensors.length⟩) :
    (g.adding t).directory = g.directory.register t.name := by
  rw [Directory.register, length_entries_directory, directory, tensors_adding, List.map_append,
    List.map_singleton, h]
  rfl

/-- Names and identifiers belong together: a tensor stands at its identifier, no two tensors
have one name, and the table leads a name to the tensor that has it. -/
structure Consistent (g : Graph) : Prop where
  ids : ∀ {i : Nat} {t : Tensor}, g.tensors[i]? = some t → t.id = ⟨i⟩
  names : (g.tensors.map Tensor.name).Nodup
  lookup : g.Named
  /-- 32 bits are enough for the identifiers as long as there are no more tensors. -/
  words : (∀ t ∈ g.tensors, t.id.word.toNat = t.id.index) ↔ g.tensors.length ≤ UInt32.size

theorem ids_of_directory (h : g.directory.Consistent) {i : Nat} {t : Tensor}
    (ht : g.tensors[i]? = some t) : t.id = ⟨i⟩ := by
  have hentry : g.directory.entries[i]? = some (t.id, t.name) := by
    rw [directory, List.getElem?_map, ht, Option.map_some]
  exact h.ids hentry

theorem named_of_directory (h : g.directory.Consistent) : g.Named := by
  intro name id
  have hentry : g.directory.entries[id.index]? = some (id, name) ↔ g.nameOf? id = some name := by
    rw [directory, List.getElem?_map, nameOf?]
    cases ht : g.tensors[id.index]? with
    | none => simp
    | some t => simp [ids_of_directory h ht]
  exact (h.finds name id).trans hentry

theorem words_of_directory (h : g.directory.Consistent) :
    (∀ t ∈ g.tensors, t.id.word.toNat = t.id.index) ↔ g.tensors.length ≤ UInt32.size := by
  constructor
  · intro hwords
    refine Nat.not_lt.mp fun hlt => ?_
    -- the tensor that stands there has zero for its word
    have hat := List.getElem?_eq_getElem hlt
    have hword := hwords _ (List.mem_of_getElem? hat)
    rw [ids_of_directory h hat] at hword
    exact absurd hword (by decide)
  · intro hle t ht
    obtain ⟨i, hi⟩ := List.getElem?_of_mem ht
    have hlt := (List.getElem?_eq_some_iff.mp hi).1
    rw [ids_of_directory h hi, TensorId.word, UInt32.toNat_ofNat',
      Nat.mod_eq_of_lt (Nat.lt_of_lt_of_le hlt hle)]

theorem consistent_of_directory (h : g.directory.Consistent) : g.Consistent where
  ids := ids_of_directory h
  names := (named_of_directory h).nodup
  lookup := named_of_directory h
  words := words_of_directory h

end Graph

end Relayout
