/-
# Maps in key order

A finite map from texts, held as its entries in ascending order of the keys.
The order is part of the type: every listing of such a map, in messages, in
JSON and in binary, is by ascending keys, and two maps with the same entries
are equal.
-/

namespace Relayout

/-- A finite map whose entries are listed by ascending keys. -/
structure SortedMap (β : Type) where
  entries : List (String × β)
  sorted : entries.Pairwise fun a b => a.1 < b.1
deriving DecidableEq, Repr

namespace SortedMap

variable {β : Type}

def empty : SortedMap β := ⟨[], .nil⟩

/-- Entries with the value of one key set: a present key keeps its place, a
new key goes where the order wants it. -/
def insertEntry (key : String) (value : β) : List (String × β) → List (String × β)
  | [] => [(key, value)]
  | (k, v) :: rest =>
      if key < k then (key, value) :: (k, v) :: rest
      else if key = k then (key, value) :: rest
      else (k, v) :: insertEntry key value rest

theorem mem_insertEntry {key : String} {value : β} {e : String × β} :
    ∀ {entries : List (String × β)},
      e ∈ insertEntry key value entries → e = (key, value) ∨ e ∈ entries
  | [], h => Or.inl (List.mem_singleton.mp h)
  | (k, v) :: rest, h => by
      unfold insertEntry at h
      split at h
      · exact List.mem_cons.mp h
      · split at h
        · rcases List.mem_cons.mp h with h | h
          · exact Or.inl h
          · exact Or.inr (List.mem_cons_of_mem _ h)
        · rcases List.mem_cons.mp h with h | h
          · exact Or.inr (h ▸ List.mem_cons_self)
          · exact (mem_insertEntry h).imp id (List.mem_cons_of_mem _)

theorem sorted_insertEntry {key : String} {value : β} :
    ∀ {entries : List (String × β)}, entries.Pairwise (fun a b => a.1 < b.1) →
      (insertEntry key value entries).Pairwise fun a b => a.1 < b.1
  | [], _ => List.pairwise_singleton _ _
  | (k, v) :: rest, h => by
      have hhead : ∀ e ∈ rest, k < e.1 := fun _ he => List.rel_of_pairwise_cons h he
      unfold insertEntry
      split
      · rename_i hlt
        refine h.cons fun e he => ?_
        rcases List.mem_cons.mp he with rfl | he
        · exact hlt
        · exact String.lt_trans hlt (hhead e he)
      · split
        · rename_i heq
          subst heq
          exact h.of_cons.cons fun e he => hhead e he
        · rename_i hnlt hne
          have hk : k < key :=
            Decidable.byContradiction fun hn =>
              hne (String.le_antisymm (String.not_lt.mp hn) (String.not_lt.mp hnlt))
          refine (sorted_insertEntry h.of_cons).cons fun e he => ?_
          rcases mem_insertEntry he with rfl | he
          · exact hk
          · exact hhead e he

/-- The map with the value of one key set. -/
def insert (m : SortedMap β) (key : String) (value : β) : SortedMap β :=
  ⟨insertEntry key value m.entries, sorted_insertEntry m.sorted⟩

/-- The value of a key. -/
def find? (m : SortedMap β) (key : String) : Option β := m.entries.lookup key

@[simp]
theorem find?_empty (key : String) : (empty : SortedMap β).find? key = none := rfl

theorem lookup_cons_eq_ite (name key : String) (value : β) (rest : List (String × β)) :
    ((key, value) :: rest).lookup name = if name = key then some value else rest.lookup name := by
  by_cases h : name = key
  · subst h
    rw [List.lookup_cons_self, if_pos rfl]
  · rw [List.lookup_cons, beq_eq_false_iff_ne.mpr h, if_neg h]

theorem lookup_insertEntry (key : String) (value : β) (name : String) :
    ∀ entries : List (String × β), (insertEntry key value entries).lookup name =
      if name = key then some value else entries.lookup name
  | [] => lookup_cons_eq_ite name key value []
  | (k, v) :: rest => by
      unfold insertEntry
      split
      · exact lookup_cons_eq_ite ..
      · split
        · rename_i heq
          subst heq
          rw [lookup_cons_eq_ite, lookup_cons_eq_ite]
          split <;> rfl
        · rename_i hne
          rw [lookup_cons_eq_ite, lookup_cons_eq_ite, lookup_insertEntry key value name rest]
          by_cases hk : name = k
          · have hkey : name ≠ key := fun heq => hne (heq ▸ hk)
            rw [if_pos hk, if_pos hk, if_neg hkey]
          · rw [if_neg hk, if_neg hk]

/-- What was set is found, and everything else as before. -/
theorem find?_insert (m : SortedMap β) (key : String) (value : β) (name : String) :
    (m.insert key value).find? name = if name = key then some value else m.find? name :=
  lookup_insertEntry key value name m.entries

/-- The map of a list of entries; of a repeated key the last value stays. -/
def ofEntries (entries : List (String × β)) : SortedMap β :=
  entries.foldl (fun m (key, value) => m.insert key value) empty

end SortedMap

end Relayout
