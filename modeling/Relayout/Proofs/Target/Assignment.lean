/-
# Single assignment

What the check of a whole graph accepts, said of the list of nodes at once: the
nodes are named, and in their order every value is written once, before it is
read.  The check itself is a scan that keeps one list of names, in which
constants, inputs and the outputs so far are mixed; `Ordered` is what such a scan
lets through from any list on, and one node more or less at the front is
`ordered_cons`.

The order is what running needs.  `Graph.run` runs the nodes one after another,
whatever they compute, and stops where a node reads what is not there or writes
what is; an accepted graph never stops so.
-/
import Mathlib.Logic.Function.Basic
import Relayout.Proofs.Target.Check

namespace Relayout.Target

variable {defined defined' : List String} {n : Node} {nodes : List Node} {x : String}

/-- The values that nodes write, in order. -/
def written (nodes : List Node) : List String := nodes.flatMap Node.outputs

/-- Names that are written once and are not defined yet. -/
def New (defined outputs : List String) : Prop := outputs.Nodup ∧ ∀ y ∈ outputs, y ∉ defined

theorem new_cons {y : String} {outputs : List String} :
    New defined (y :: outputs) ↔ y ∉ defined ∧ New (y :: defined) outputs := by
  rw [New, New, List.nodup_cons, List.forall_mem_cons]
  simp only [List.mem_cons, not_or]
  constructor
  · rintro ⟨⟨hy, hnodup⟩, hnew, hrest⟩
    exact ⟨hnew, hnodup, fun z hz => ⟨fun heq => hy (heq ▸ hz), hrest z hz⟩⟩
  · rintro ⟨hnew, hnodup, hrest⟩
    exact ⟨⟨fun hy => (hrest y hy).1 rfl, hnodup⟩, hnew, fun z hz => (hrest z hz).2⟩

/-- The names that a graph starts from: constants and inputs. -/
def Graph.starts (g : Graph) : List String := (g.initializers ++ g.inputs).map TensorNode.name

/-! ## Order -/

/-- Nodes that can run in their order once the given names are defined. -/
structure Ordered (defined : List String) (nodes : List Node) : Prop where
  /-- What a node reads is given, or written by an earlier node. -/
  reads : ∀ (i : Nat) (n : Node), nodes[i]? = some n → ∀ x ∈ n.inputs, x ≠ "" →
    x ∈ defined ∨ ∃ (j : Nat) (m : Node), j < i ∧ nodes[j]? = some m ∧ x ∈ m.outputs
  /-- Nothing is written twice, -/
  once : (written nodes).Nodup
  /-- nor is what is given. -/
  fresh : ∀ y ∈ written nodes, y ∉ defined

theorem ordered_nil : Ordered defined [] where
  reads := by simp
  once := List.nodup_nil
  fresh := by simp [written]

/-- Behind a node its outputs are defined as well. -/
theorem mem_outputs_append : x ∈ n.outputs.reverse ++ defined ↔ x ∈ n.outputs ∨ x ∈ defined := by
  rw [List.mem_append, List.mem_reverse]

/-- The first node reads what is given and writes new names; behind it these are
given as well. -/
theorem ordered_cons :
    Ordered defined (n :: nodes) ↔
      (∀ x ∈ n.inputs, x ≠ "" → x ∈ defined) ∧
        New defined n.outputs ∧ Ordered (n.outputs.reverse ++ defined) nodes := by
  have hwritten : written (n :: nodes) = n.outputs ++ written nodes := List.flatMap_cons
  constructor
  · intro h
    have honce := List.nodup_append.mp (hwritten ▸ h.once)
    have hfresh : ∀ y ∈ n.outputs ++ written nodes, y ∉ defined := hwritten ▸ h.fresh
    refine ⟨fun x hx hne => ?_, ⟨honce.1, fun y hy => hfresh y (List.mem_append_left _ hy)⟩, ?_⟩
    · exact (h.reads 0 n rfl x hx hne).resolve_right fun ⟨_, _, hj, _⟩ => absurd hj (by simp)
    · refine ⟨fun i m hm x hx hne => ?_, honce.2.1, fun y hy hmem => ?_⟩
      · -- an earlier writer is the first node or one behind it
        rw [mem_outputs_append]
        obtain hx | ⟨j, w, hj, hw, hx⟩ := h.reads (i + 1) m hm x hx hne
        · exact Or.inl (Or.inr hx)
        · cases j with
          | zero =>
              obtain rfl := Option.some.inj hw
              exact Or.inl (Or.inl hx)
          | succ j => exact Or.inr ⟨j, w, Nat.lt_of_succ_lt_succ hj, hw, hx⟩
      · rcases mem_outputs_append.mp hmem with hn | hdefined
        · exact honce.2.2 y hn y hy rfl
        · exact hfresh y (List.mem_append_right _ hy) hdefined
  · rintro ⟨hreads, ⟨hnodup, hnew⟩, hrest⟩
    refine ⟨fun i m hm x hx hne => ?_, ?_, fun y hy => ?_⟩
    · cases i with
      | zero =>
          obtain rfl := Option.some.inj hm
          exact Or.inl (hreads x hx hne)
      | succ i =>
          obtain hmem | ⟨j, w, hj, hw, hx⟩ := hrest.reads i m hm x hx hne
          · rcases mem_outputs_append.mp hmem with hn | hdefined
            · exact Or.inr ⟨0, n, Nat.succ_pos i, rfl, hn⟩
            · exact Or.inl hdefined
          · exact Or.inr ⟨j + 1, w, Nat.succ_lt_succ hj, hw, hx⟩
    · rw [hwritten]
      refine List.nodup_append.mpr ⟨hnodup, hrest.once, fun y hy z hz heq => ?_⟩
      exact hrest.fresh z hz (mem_outputs_append.mpr (Or.inl (heq ▸ hy)))
    · rw [hwritten] at hy
      rcases List.mem_append.mp hy with hy | hy
      · exact hnew y hy
      · exact fun hmem => hrest.fresh y hy (mem_outputs_append.mpr (Or.inr hmem))

/-! ## The scan -/

/-- A node says what it does, and names what it writes. -/
def Node.Named (n : Node) : Prop := n.opType ≠ "" ∧ n.outputs ≠ [] ∧ ∀ y ∈ n.outputs, y ≠ ""

theorem checkNode_eq_ok_iff : checkNode n = .ok () ↔ n.Named := by
  rw [checkNode_eq_ok, Node.Named]
  refine and_congr_right fun _ => and_congr_right fun _ => ?_
  exact ⟨fun h y hy heq => h (heq ▸ hy), fun h hmem => h "" hmem rfl⟩

theorem defineOutputs_eq_ok {outputs : List String} :
    defineOutputs n defined outputs = .ok defined' ↔
      New defined outputs ∧ defined' = outputs.reverse ++ defined := by
  induction outputs generalizing defined with
  | nil => simp [defineOutputs, New, eq_comm]
  | cons y outputs ih =>
      rw [defineOutputs, new_cons]
      by_cases hy : y ∈ defined
      · simp [hy]
      · rw [if_neg hy, ih, List.reverse_cons, List.append_assoc, List.singleton_append]
        simp [hy]

/-- A scan goes through exactly if the nodes are named and ordered; the names
behind it are the given ones and all that was written. -/
theorem checkNodes_eq_ok :
    checkNodes defined nodes = .ok defined' ↔
      (∀ n ∈ nodes, n.Named) ∧ Ordered defined nodes ∧
        defined' = (written nodes).reverse ++ defined := by
  induction nodes generalizing defined with
  | nil => simp [checkNodes, ordered_nil, written, eq_comm]
  | cons n nodes ih =>
      have hwritten : (written (n :: nodes)).reverse ++ defined =
          (written nodes).reverse ++ (n.outputs.reverse ++ defined) := by
        rw [written, List.flatMap_cons, List.reverse_append, List.append_assoc]
        rfl
      rw [hwritten, ordered_cons, List.forall_mem_cons, checkNodes]
      simp only [bind_eq_ok, defineOutputs_eq_ok, ih]
      constructor
      · rintro ⟨_, hn, _, hin, _, ⟨hout, rfl⟩, hnodes, hrest, rfl⟩
        exact ⟨⟨checkNode_eq_ok_iff.mp hn, hnodes⟩, ⟨checkInputs_eq_ok.mp hin, hout, hrest⟩, rfl⟩
      · rintro ⟨⟨hn, hnodes⟩, ⟨hin, hout, hrest⟩, rfl⟩
        exact ⟨(), checkNode_eq_ok_iff.mpr hn, (), checkInputs_eq_ok.mpr hin, _, ⟨hout, rfl⟩,
          hnodes, hrest, rfl⟩

/-! ## Running -/

/-- Why running stops. -/
inductive Hazard where
  /-- A node reads a value that is not there. -/
  | undefined (name : String)
  /-- A node writes a value that is there. -/
  | overwritten (name : String)

section Running

variable {V : Type}

/-- What nodes compute: the value that a node writes under a name, from the
values of its operands; one that is left out has none. -/
abbrev Semantics (V : Type) := Node → List (Option V) → String → V

/-- The values that are there, by name. -/
abbrev Store (V : Type) := String → Option V

namespace Store

/-- The value of an operand, unless it is left out. -/
def read (m : Store V) (x : String) : Except Hazard (Option V) :=
  if x = "" then .ok none
  else
    match m x with
    | some v => .ok (some v)
    | none => .error (.undefined x)

/-- A value under a new name. -/
def write (m : Store V) (y : String) (v : V) : Except Hazard (Store V) :=
  if (m y).isSome then .error (.overwritten y) else .ok (Function.update m y (some v))

/-- Exactly the given names have a value. -/
def Defines (m : Store V) (defined : List String) : Prop := ∀ x, (m x).isSome ↔ x ∈ defined

end Store

/-- A node reads its operands, then writes its outputs. -/
def Node.run (f : Semantics V) (m : Store V) (n : Node) : Except Hazard (Store V) := do
  let operands ← n.inputs.mapM m.read
  n.outputs.foldlM (fun m y => m.write y (f n operands y)) m

/-- Constants and inputs are there at first. -/
def Graph.startStore (g : Graph) (given : String → V) : Store V :=
  fun x => if x ∈ g.starts then some (given x) else none

/-- The nodes of a graph, run in order. -/
def Graph.run (g : Graph) (f : Semantics V) (given : String → V) : Except Hazard (Store V) :=
  g.nodes.foldlM (Node.run f) (g.startStore given)

namespace Store

variable {m m' : Store V}

theorem Defines.read_isOk (h : m.Defines defined) :
    (∃ v, m.read x = .ok v) ↔ (x ≠ "" → x ∈ defined) := by
  rw [← h x, read]
  by_cases hx : x = ""
  · simp [hx]
  · cases hm : m x <;> simp [hx]

theorem Defines.reads_isOk (h : m.Defines defined) {inputs : List String} :
    (∃ vs, inputs.mapM m.read = .ok vs) ↔ ∀ x ∈ inputs, x ≠ "" → x ∈ defined := by
  induction inputs with
  | nil => exact iff_of_true ⟨[], rfl⟩ (by simp)
  | cons x inputs ih =>
      rw [List.forall_mem_cons, ← ih, ← h.read_isOk, List.mapM_cons]
      simp only [bind_eq_ok]
      constructor
      · rintro ⟨_, v, hv, vs, hvs, _⟩
        exact ⟨⟨v, hv⟩, vs, hvs⟩
      · rintro ⟨⟨v, hv⟩, vs, hvs⟩
        exact ⟨v :: vs, v, hv, vs, hvs, rfl⟩

/-- Writing goes through exactly if the name is new. -/
theorem Defines.write_eq_ok (h : m.Defines defined) {y : String} {v : V} :
    m.write y v = .ok m' ↔ y ∉ defined ∧ m' = Function.update m y (some v) := by
  rw [← h y, write]
  split <;> simp [*, eq_comm]

theorem Defines.update (h : m.Defines defined) (y : String) (v : V) :
    Defines (Function.update m y (some v)) (y :: defined) := by
  intro x
  by_cases hx : x = y
  · simp [hx]
  · rw [Function.update_of_ne hx, h x, List.mem_cons, or_iff_right hx]

theorem Defines.writes_isOk (h : m.Defines defined) {outputs : List String} (v : String → V) :
    (∃ m', outputs.foldlM (fun m y => write m y (v y)) m = .ok m') ↔ New defined outputs := by
  induction outputs generalizing m defined with
  | nil => exact iff_of_true ⟨m, rfl⟩ (by simp [New])
  | cons y outputs ih =>
      rw [new_cons, ← ih (h.update y (v y))]
      simp only [List.foldlM_cons, bind_eq_ok, h.write_eq_ok]
      constructor
      · rintro ⟨m', _, ⟨hy, rfl⟩, hrest⟩
        exact ⟨hy, m', hrest⟩
      · rintro ⟨hy, m', hrest⟩
        exact ⟨m', _, ⟨hy, rfl⟩, hrest⟩

theorem Defines.of_writes (h : m.Defines defined) {outputs : List String} {v : String → V}
    (hrun : outputs.foldlM (fun m y => write m y (v y)) m = .ok m') :
    m'.Defines (outputs.reverse ++ defined) := by
  induction outputs generalizing m defined with
  | nil =>
      cases hrun
      exact h
  | cons y outputs ih =>
      obtain ⟨m₁, hwrite, hrest⟩ := bind_eq_ok.mp hrun
      obtain ⟨-, rfl⟩ := h.write_eq_ok.mp hwrite
      rw [List.reverse_cons, List.append_assoc]
      exact ih (h.update y (v y)) hrest

/-- A node runs exactly if it reads what is there and writes what is not. -/
theorem Defines.run_isOk (h : m.Defines defined) (f : Semantics V) :
    (∃ m', n.run f m = .ok m') ↔
      (∀ x ∈ n.inputs, x ≠ "" → x ∈ defined) ∧ New defined n.outputs := by
  rw [← h.reads_isOk]
  simp only [Node.run, bind_eq_ok]
  constructor
  · rintro ⟨m', vs, hvs, hwrite⟩
    exact ⟨⟨vs, hvs⟩, (h.writes_isOk _).mp ⟨m', hwrite⟩⟩
  · rintro ⟨⟨vs, hvs⟩, hout⟩
    obtain ⟨m', hwrite⟩ := (h.writes_isOk (f n vs)).mpr hout
    exact ⟨m', vs, hvs, hwrite⟩

theorem Defines.of_run (h : m.Defines defined) {f : Semantics V} (hrun : n.run f m = .ok m') :
    m'.Defines (n.outputs.reverse ++ defined) := by
  obtain ⟨vs, -, hwrite⟩ := bind_eq_ok.mp hrun
  exact h.of_writes hwrite

/-- Nodes run to their end exactly if they are ordered, whatever they compute. -/
theorem Defines.runs_isOk (h : m.Defines defined) (f : Semantics V) :
    (∃ m', nodes.foldlM (Node.run f) m = .ok m') ↔ Ordered defined nodes := by
  induction nodes generalizing m defined with
  | nil => exact iff_of_true ⟨m, rfl⟩ ordered_nil
  | cons n nodes ih =>
      simp only [List.foldlM_cons, bind_eq_ok]
      rw [ordered_cons, ← and_assoc, ← h.run_isOk f]
      constructor
      · rintro ⟨m', m₁, hn, hrest⟩
        exact ⟨⟨m₁, hn⟩, (ih (h.of_run hn)).mp ⟨m', hrest⟩⟩
      · rintro ⟨⟨m₁, hn⟩, hrest⟩
        obtain ⟨m', hm'⟩ := (ih (h.of_run hn)).mpr hrest
        exact ⟨m', m₁, hn, hm'⟩

theorem Defines.of_runs (h : m.Defines defined) {f : Semantics V}
    (hrun : nodes.foldlM (Node.run f) m = .ok m') :
    m'.Defines ((written nodes).reverse ++ defined) := by
  induction nodes generalizing m defined with
  | nil =>
      cases hrun
      exact h
  | cons n nodes ih =>
      obtain ⟨m₁, hn, hrest⟩ := bind_eq_ok.mp hrun
      have := ih (h.of_run hn) hrest
      rwa [← List.append_assoc, ← List.reverse_append] at this

theorem defines_start (g : Graph) (given : String → V) :
    (g.startStore given).Defines g.starts := by
  intro x
  rw [Graph.startStore]
  split <;> simp [*]

end Store

end Running

/-! ## Graphs -/

/-- Graphs in which every value is written once, before it is read. -/
structure Graph.SingleAssignment (g : Graph) : Prop where
  named : ∀ n ∈ g.nodes, n.Named
  ordered : Ordered g.starts g.nodes
  /-- The outputs of the graph are there in the end. -/
  outputs : ∀ t ∈ g.outputs, t.name ∈ g.starts ∨ t.name ∈ written g.nodes

theorem checkGraph_eq_ok_iff {g : Graph} : checkGraph g = .ok () ↔ g.SingleAssignment := by
  have hdefined : ∀ x, x ∈ (written g.nodes).reverse ++ g.starts ↔
      x ∈ g.starts ∨ x ∈ written g.nodes := fun x => by
    rw [List.mem_append, List.mem_reverse, or_comm]
  rw [checkGraph_eq_ok]
  constructor
  · rintro ⟨_, hnodes, hout⟩
    obtain ⟨hnamed, hordered, rfl⟩ := checkNodes_eq_ok.mp hnodes
    exact ⟨hnamed, hordered, fun t ht => (hdefined _).mp (hout t ht)⟩
  · intro h
    exact ⟨_, checkNodes_eq_ok.mpr ⟨h.named, h.ordered, rfl⟩, fun t ht =>
      (hdefined _).mpr (h.outputs t ht)⟩

/-- What is there once a graph has run: what it starts from and what its nodes
write. -/
theorem Graph.isSome_of_run {V : Type} {g : Graph} {f : Semantics V} {given : String → V}
    {m : Store V} (h : g.run f given = .ok m) (x : String) :
    (m x).isSome ↔ x ∈ g.starts ∨ x ∈ written g.nodes := by
  rw [(Store.defines_start g given).of_runs h x, List.mem_append, List.mem_reverse, or_comm]

/-- The check of a graph accepts exactly the single-assignment graphs in
topological order.  They are those with named nodes that run to their end and
leave all outputs, from any values of constants and inputs and whatever the nodes
compute: no node reads what is not there, and none writes what is. -/
theorem checkGraph_accepts_iff (g : Graph) :
    (checkGraph g = .ok () ↔ g.SingleAssignment) ∧
      (checkGraph g = .ok () ↔
        (∀ n ∈ g.nodes, n.Named) ∧
          ∀ (V : Type) (f : Semantics V) (given : String → V), ∃ m, g.run f given = .ok m ∧
            (∀ x, (m x).isSome ↔ x ∈ g.starts ∨ x ∈ written g.nodes) ∧
              ∀ t ∈ g.outputs, (m t.name).isSome) := by
  refine ⟨checkGraph_eq_ok_iff, checkGraph_eq_ok_iff.trans ⟨fun h => ⟨h.named, ?_⟩, ?_⟩⟩
  · intro V f given
    obtain ⟨m, hm⟩ := ((Store.defines_start g given).runs_isOk f).mpr h.ordered
    have hdefined := Graph.isSome_of_run hm
    exact ⟨m, hm, hdefined, fun t ht => (hdefined t.name).mpr (h.outputs t ht)⟩
  · rintro ⟨hnamed, hruns⟩
    -- any values will do
    obtain ⟨m, hm, hdefined, hout⟩ := hruns Unit (fun _ _ _ => ()) fun _ => ()
    exact ⟨hnamed, ((Store.defines_start g _).runs_isOk _).mp ⟨m, hm⟩, fun t ht =>
      (hdefined t.name).mp (hout t ht)⟩

end Relayout.Target
