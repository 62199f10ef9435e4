/-
# Any history of a registry

Calls on a registry and on the graph around it may come in any order and number, with
any arguments, and those that fail leave what they had changed (`history`).  Names and
identifiers belong together at any time of such a history: every call only adds names
(`Action.enrolls`), so what held of the empty graph holds for good, and a name that was
given an identifier keeps it.
-/
import Relayout.Proofs.Graph.Enrolment
import Relayout.Proofs.Graph.Growth

namespace Relayout.Graph

variable {g : Graph}

/-! ## Calls -/

/-- A call on the registry of a graph. -/
inductive RegistryCall where
  | request (subgraph : Source.Subgraph) (index : Int64) (layout : Option Layout) (constant : Bool)
  | derive (existing : TensorId) (name : String) (constant : Bool)
  | scalar (reference : TensorId) (value : Nat)
  | vector (owner : String) (values : List Int)

def RegistryCall.run (s : Scope) : RegistryCall → Step Graph TensorId
  | .request subgraph index layout constant =>
      Graph.request { s with subgraph := subgraph } index layout constant
  | .derive existing name constant => Graph.derive existing name constant
  | .scalar reference value => Graph.scalar reference value
  | .vector owner values => Graph.vector owner values

/-- A call on a graph. -/
inductive Action where
  | registry (call : RegistryCall)
  | explicitLayouts (layouts : SortedMap ExplicitLayout)
  | parse
  | rewrite (r : Rewrite)

def Action.run (s : Scope) : Action → Step Graph Unit
  | .registry call => discard (call.run s)
  | .explicitLayouts layouts => applyExplicitLayouts s layouts
  | .parse => Graph.parse s
  | .rewrite r => r.run

/-- The graph after some calls, those that failed included. -/
def history (s : Scope) (actions : List Action) : Graph :=
  actions.foldl (fun g action => Step.after (action.run s g)) .empty

/-! ## One call -/

theorem RegistryCall.registers (s : Scope) (call : RegistryCall) :
    (call.run s).Always Registers := by
  cases call with
  | request subgraph index layout constant => exact registers_request index layout constant
  | derive existing name constant => exact registers_derive existing name constant
  | scalar reference value => exact registers_scalar reference value
  | vector owner values => exact registers_vector owner values

theorem Rewrite.enrolls (r : Rewrite) : r.run.Always Enrolls := by
  cases r with
  | liftRank id slot l => exact (enrolls_liftRank id slot l).discard
  | preserveInput id slot => exact (enrolls_preserveInput id slot).discard
  | preserveOutput id slot => exact (enrolls_preserveOutput id slot).discard
  | transform => exact enrolls_transform

theorem Action.enrolls (s : Scope) (a : Action) : (a.run s).Always Enrolls := by
  cases a with
  | registry call => exact ((call.registers s).mono fun _ _ => Registers.enrolls).discard
  | explicitLayouts layouts => exact enrolls_applyExplicitLayouts layouts
  | parse => exact enrolls_parse s
  | rewrite r => exact r.enrolls

/-! ## All calls -/

theorem history_append (s : Scope) (actions more : List Action) :
    history s (actions ++ more) =
      more.foldl (fun g action => Step.after (action.run s g)) (history s actions) :=
  List.foldl_append

theorem enrolls_history (s : Scope) (actions more : List Action) :
    Enrolls (history s actions) (history s (actions ++ more)) := by
  rw [history_append]
  generalize history s actions = g
  induction more generalizing g with
  | nil => exact refl_of Enrolls g
  | cons a more ih => exact trans_of Enrolls (a.enrolls s g) (ih _)

/-- What a history registers belongs together: the empty directory does, and a registration
under a new name keeps it so. -/
theorem directory_history (s : Scope) (actions : List Action) :
    (history s actions).directory.Consistent :=
  (enrolls_history s [] actions).consistent Directory.consistent_empty

/-- At any time names and identifiers belong together.  Later calls register more names, each
of them new to the table, and keep the identifiers of those there are.  A call on the registry
adds one tensor at most, and a request that adds none changes none. -/
theorem history_consistent (s : Scope) (actions : List Action) :
    (history s actions).Consistent ∧
    (∀ more : List Action,
      (history s actions).directory.Grows (history s (actions ++ more)).directory ∧
      ∀ (name : String) (id : TensorId), (history s actions).lookup? name = some id →
        (history s (actions ++ more)).lookup? name = some id) ∧
    (∀ call : RegistryCall,
      Registers (history s actions) (Step.after (call.run s (history s actions)))) ∧
    ∀ (subgraph : Source.Subgraph) (index : Int64) (layout : Option Layout) (constant : Bool),
      Answer { s with subgraph := subgraph } (history s actions) index layout constant
        ((RegistryCall.request subgraph index layout constant).run s (history s actions)) := by
  have hconsistent := consistent_of_directory (directory_history s actions)
  refine ⟨hconsistent, fun more => ?_, fun call => call.registers s _,
    fun subgraph index layout constant =>
      answer_request _ hconsistent.lookup index layout constant⟩
  have hgrows := enrolls_history s actions more
  exact ⟨hgrows, fun _ _ hid => hgrows.find? hid⟩

/-- `y` is requested, an index dangles, and of the known layouts that for `x` is registered
before that for `y` conflicts. -/
example : (history forkedScope
    [.registry (.request forkedSubgraph 1 none false),
      .registry (.request forkedSubgraph 7 none true), .explicitLayouts forkedLayouts,
      .registry (.vector "x" [2])]).directory =
    ((Directory.empty.register "y").register "x").register "TFLITE2ONNX_Vector_x" := by
  decide +kernel

end Relayout.Graph
