/-
# Conversion preserves what a graph computes

The source runs its operators in order, the converted graph its nodes, and each
call does the same as the nodes that it is lowered to.  So once both have run,
the converted graph holds every value of the source under the name of its tensor,
moved to the target order of the layout.

## What is asked of the source

* The registry is strict.  A lenient one drops a request, and a convolution may
  then read an operand in the order that it was not written for.
* Names are distinct, and none is reserved: a converted graph has one value for
  a name.
* Reshapes keep the count of elements.  They copy a value as it is, so a value of
  another length would not be one of the tensor that is written.
* No shape operand is a constant of floats, which loses its value when it becomes
  64-bit integers.

## What is asked of the convolutions

What a convolution does is left open: `Carries` relates the kernels of both
graphs.  Number `k` of the converted graph does, in target order, what number `k`
of the source does, on values that fill the declared tensors.
-/
import Relayout.Proofs.Evaluation.Calls

namespace Relayout

namespace Graph

open Target (checkNodes)

section Run

variable {s : Scope} {layouts : SortedMap ExplicitLayout} {g : Graph} {title name : String}
  {n : Nat} {defined : List String} {F G : Nat → Kernel} (h : Lowers s layouts g)

include h

/-- The first operators of the source against all nodes that they are lowered
to. -/
theorem Lowers.simulates_upTo (hcounts : s.KeepsCounts) (hcarries : s.Carries layouts F G)
    (hshapes : s.IntegerShapes) {given : Nat → Value} {given' : String → Value}
    (hfeeds : s.Feeds layouts given given') (hn : n ≤ s.subgraph.operators.length)
    (hcheck : checkNodes (startNames (g.loweredGraph title))
      ((List.range n).flatMap (g.loweredAt s.calls (s.tag layouts))) = .ok defined) :
    ∃ m m', (s.subgraph.operators.take n).foldlM (s.execute? F) (s.initial given) = some m ∧
      ((List.range n).flatMap (g.loweredAt s.calls (s.tag layouts))).foldlM
        ((g.loweredGraph title).execute? G) ((g.loweredGraph title).initial given') = some m' ∧
      m.convolved = s.convolutionsBefore n ∧
      Simulates s layouts (s.tag layouts) (Call.turnedBefore s.calls n) defined m m' := by
  induction n generalizing defined with
  | zero =>
      cases hcheck
      exact ⟨_, _, rfl, rfl, rfl, h.simulates_initial hshapes hfeeds⟩
  | succ n ih =>
      have hdecl := List.getElem?_eq_getElem (Nat.lt_of_succ_le hn)
      rw [List.range_succ, List.flatMap_append, List.flatMap_singleton] at hcheck ⊢
      rw [Target.checkNodes_append] at hcheck
      -- the checks went through the earlier nodes first
      obtain ⟨between, hbefore, hcheck⟩ := bind_eq_ok.mp hcheck
      obtain ⟨m, m', hrun, hrun', hm, hsim⟩ := ih (Nat.le_of_succ_le hn) hbefore
      obtain ⟨m₁, m₁', hstep, hstep', hm₁, hsim₁⟩ :=
        h.simulates_call hcounts hcarries hdecl hm hsim hcheck
      refine ⟨m₁, m₁', ?_, ?_, hm₁, hsim₁⟩
      · rw [List.take_add_one, hdecl, List.foldlM_append, hrun]
        simpa using hstep
      · rw [List.foldlM_append, hrun']
        exact hstep'

/-- All that the boundary and the calls name is defined in the end. -/
theorem Lowers.mem_defined (hcheck : checkNodes (startNames (g.loweredGraph title))
      (g.lowered s.calls (s.tag layouts)) = .ok defined)
    (houtputs : ∀ node ∈ (g.loweredGraph title).outputs, node.name ∈ defined)
    (hname : name ∈ s.boundary s.subgraph.inputs ∨ name ∈ s.boundary s.subgraph.outputs ∨
      ∃ (i : Nat) (c : Call), s.calls[i]? = some c ∧ (name ∈ c.inputs ∨ name = c.output)) :
    name ∈ defined := by
  obtain ⟨hstart, hnodes⟩ := Target.mem_of_checkNodes hcheck
  rcases hname with hin | hout | ⟨i, c, hc, hmem⟩
  · exact hstart name ((h.intake.mem_startNames h.vacant h.clash).mpr
      ⟨Or.inl hin, Or.inl hin⟩)
  · rw [← h.intake.adapted_outputs] at hout
    obtain ⟨id, hid, heq⟩ := List.mem_filterMap.mp hout
    obtain ⟨u, hu, rfl⟩ := Option.map_eq_some_iff.mp heq
    exact houtputs u.node (mem_outputs_targetOf hid hu)
  · have hmention := h.readable.mentions_lowered hc hmem []
    obtain ⟨node, hnode, hin | hout⟩ := hmention.resolve_left List.not_mem_nil
    · exact (hnodes node hnode).1 name hin (h.ne_empty_of_call hc hmem)
    · exact (hnodes node hnode).2 name hout

end Run

end Graph

namespace Conversion

open Relayout.Graph

/-- Conversion preserves what a graph computes.  Run on the same inputs, with
convolutions that do the same in the order that each graph keeps its values in,
both graphs run through, and the converted one ends with the value of everything
that the source refers to, moved to the target order of its layout. -/
theorem convertModel_preserves {m : Source.Model} {o : Options} {model : Target.Model}
    {sub : Source.Subgraph} (h : (convertModel m o).outcome = .ok model)
    (hsub : m.subgraphs = [sub]) (hstrict : o.strictRegistry = true) (hstorable : sub.Storable)
    (hs : (scopeOf m sub o).Distinct) (hnames : (scopeOf m sub o).Unreserved)
    (hcounts : (scopeOf m sub o).KeepsCounts) (hshapes : (scopeOf m sub o).IntegerShapes)
    {F G : Nat → Kernel} (hcarries : (scopeOf m sub o).Carries o.explicitLayouts F G)
    {given : Nat → Value} {given' : String → Value}
    (hfeeds : (scopeOf m sub o).Feeds o.explicitLayouts given given') :
    ∃ source target, (scopeOf m sub o).evaluate F given = some source ∧
      model.graph.evaluate G given' = some target ∧
      ∀ p, (scopeOf m sub o).Refers p → ∃ d v, sub.tensors[p]? = some d ∧
        source.value? p = some v ∧ (scopeOf m sub o).Fills p v ∧
        target.value? d.name = some ((scopeOf m sub o).movedValue o.explicitLayouts p v) := by
  obtain ⟨sub', g, g', hsub', hg, hclash, hrun⟩ := convertModel_eq_ok h
  obtain rfl : sub = sub' := List.singleton_inj.mp (hsub.symm.trans hsub')
  have hvacant := hg.intake.vacant hnames
  obtain ⟨-, htensors, -, hcheck, hgraph⟩ :=
    (hg.intake.convert_eq_ok_iff hvacant hclash _).mp ⟨g', hrun⟩
  have hlowers : Lowers (scopeOf m sub o) o.explicitLayouts g :=
    ⟨hg.intake, hs, hnames, hstrict, hstorable, hclash, htensors⟩
  obtain ⟨defined, hnodes, houtputs⟩ := Target.checkGraph_eq_ok.mp hcheck
  have hlowered : (g.loweredGraph (sub.name.getD defaultGraphName)).nodes =
      g.lowered (scopeOf m sub o).calls ((scopeOf m sub o).tag o.explicitLayouts) :=
    hg.intake.nodesAt_loweredOrder hvacant hclash
  rw [hlowered] at hnodes
  have hlength : g.ops.length = sub.operators.length := hg.intake.taken.length
  obtain ⟨source, target, hsource, htarget, -, hsim⟩ :=
    hlowers.simulates_upTo hcounts hcarries hshapes hfeeds (Nat.le_of_eq hlength) hnodes
  refine ⟨source, target, ?_, ?_, fun p hp => ?_⟩
  · have hall : (scopeOf m sub o).subgraph.operators.take g.ops.length =
        (scopeOf m sub o).subgraph.operators :=
      List.take_of_length_le (Nat.le_of_eq hlength.symm)
    rwa [hall] at hsource
  · rw [hgraph, Target.Graph.evaluate, hlowered]
    exact htarget
  · obtain ⟨name, hname, hplace⟩ := hg.named_of_refers hp
    obtain ⟨d, hd, rfl⟩ := Option.map_eq_some_iff.mp hname
    obtain ⟨v', hv'⟩ := Option.isSome_iff_exists.mp
      (hsim.there _ (hlowers.mem_defined hnodes houtputs hplace))
    obtain ⟨v, hv, hfill, rfl⟩ := hsim.holds hname hv'
    exact ⟨d, v, hd, hv, hfill, hv'⟩

/-- Convolutions of the shared model that show which operand went where. -/
def sharedKernel : Nat → Kernel := fun _ x w _ => (w ++ x).take 8

/-- The same convolutions on values in target order. -/
def sharedTargetKernel : Nat → Kernel := fun k x w b =>
  transposed Layout.activation.perm [1, 2, 2, 2] (sharedKernel k
    (transposed Layout.activation.inverse.perm
      (permutedDims Layout.activation.perm [1, 2, 2, 2]) x)
    (transposed Layout.weights.inverse.perm
      (permutedDims Layout.weights.perm [2, 1, 1, 2]) w) b)

def sharedInput : Value := (List.range 8).map fun n => .integer n

theorem sharedModel_keepsCounts :
    (scopeOf sharedModel sharedSubgraph sharedOptions).KeepsCounts := by
  intro decl hdecl p q h
  simp only [scopeOf, sharedSubgraph, List.mem_cons, List.not_mem_nil, or_false] at hdecl
  rcases hdecl with rfl | rfl | rfl | rfl | rfl <;> cases h
  all_goals rfl

theorem sharedModel_integerShapes :
    (scopeOf sharedModel sharedSubgraph sharedOptions).IntegerShapes := by
  rintro p d type ⟨decl, hdecl, hopcode, hp⟩ hd htype
  simp only [scopeOf, sharedSubgraph, List.mem_cons, List.not_mem_nil, or_false] at hdecl
  rcases hdecl with rfl | rfl | rfl | rfl | rfl
  all_goals
    cases hp
    cases hd
    cases htype
    first | rfl | cases hopcode

/-- Both convolutions have operands of the same dimensions, and no bias. -/
theorem sharedModel_convolution? {k x w y : Nat} {b : Option Nat}
    (h : (scopeOf sharedModel sharedSubgraph sharedOptions).convolution? k =
      some (.convolve x w b y)) :
    b = none ∧ (scopeOf sharedModel sharedSubgraph sharedOptions).extentsAt x = [1, 2, 2, 2] ∧
      (scopeOf sharedModel sharedSubgraph sharedOptions).extentsAt w = [2, 1, 1, 2] ∧
      (scopeOf sharedModel sharedSubgraph sharedOptions).extentsAt y = [1, 2, 2, 2] := by
  match k, h with
  | 0, h | 1, h =>
      cases h
      exact ⟨rfl, rfl, rfl, rfl⟩
  | _ + 2, h => cases h

theorem sharedModel_carries : (scopeOf sharedModel sharedSubgraph sharedOptions).Carries
    sharedOptions.explicitLayouts sharedKernel sharedTargetKernel where
  fills := by
    intro k x w y bias vx vw hk hx hw _
    obtain ⟨-, hdx, hdw, hdy⟩ := sharedModel_convolution? hk
    rw [Scope.Fills, hdx] at hx
    rw [Scope.Fills, hdy, sharedKernel, List.length_take, List.length_append, hx]
    simp [elementCount]
  commutes := by
    intro k x w y bias vx vw hk hx hw _
    obtain ⟨hnone, hdx, hdw, hdy⟩ := sharedModel_convolution? hk
    obtain rfl := Option.map_eq_none_iff.mp hnone
    rw [Scope.Fills, hdx] at hx
    rw [Scope.Fills, hdw] at hw
    rw [hdx, hdw, hdy, sharedTargetKernel, Layout.transposed_inverse rfl hx,
      Layout.transposed_inverse rfl hw]
    rfl

/-- The shared model, run from one input on both sides: what the last
convolution writes is the same value, in target order. -/
theorem convertModel_preserves_shared :
    ∃ model source target v, (convertModel sharedModel sharedOptions).outcome = .ok model ∧
      (scopeOf sharedModel sharedSubgraph sharedOptions).evaluate sharedKernel
        (fun _ => sharedInput) = some source ∧
      model.graph.evaluate sharedTargetKernel
        (fun _ => transposed Layout.activation.perm [1, 2, 2, 2] sharedInput) = some target ∧
      source.value? 8 = some v ∧
      target.value? "v" = some (transposed Layout.activation.perm [1, 2, 2, 2] v) := by
  obtain ⟨model, hmodel, -⟩ :=
    exists_of_outcome sharedModel sharedOptions (fun _ => true) (by decide +kernel)
  have hinput : ∀ p, (scopeOf sharedModel sharedSubgraph sharedOptions).IsInput p → p = 0 := by
    rintro p ⟨index, hindex, rfl⟩
    rw [List.mem_singleton.mp hindex]
    rfl
  have hfeeds : (scopeOf sharedModel sharedSubgraph sharedOptions).Feeds
      sharedOptions.explicitLayouts (fun _ => sharedInput)
      fun _ => transposed Layout.activation.perm [1, 2, 2, 2] sharedInput := by
    refine ⟨fun p hp => ?_, fun p name hp _ => ?_⟩
    · rw [hinput p hp]
      rfl
    · rw [hinput p hp]
      rfl
  obtain ⟨source, target, hsource, htarget, hvalues⟩ := convertModel_preserves hmodel rfl rfl
    sharedSubgraph_storable sharedModel_distinct sharedModel_unreserved sharedModel_keepsCounts
    sharedModel_integerShapes sharedModel_carries hfeeds
  obtain ⟨d, v, hd, hv, -, hv'⟩ := hvalues 8 (Or.inr ⟨8, by decide, rfl⟩)
  cases hd
  exact ⟨model, source, target, v, hmodel, hsource, htarget, hv, hv'⟩

end Conversion

end Relayout
