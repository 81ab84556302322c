import StateKnot.Graph.Composition
import StateKnot.Graph.Unrolling

/-!
# Composition realises the unrolled graph

`GraphComposition::compile` names the nodes of the unrolled graph: a parent node
keeps its identity, a copy has a generated one (`Names`).  Under that naming the
expansion has exactly the nodes of the unrolled graph, and their successor sets
are the named targets.  Closure and connectivity of the expansion then come from
the unrolled graph.
-/

namespace StateKnot

open Lib

variable {E : Encoding}

/-! ## Lowered identities -/

def GraphNodeSource.origin (source : GraphNodeSource) : Origin :=
  .copy source.callSite source.iteration source.nodeId

def BodyInstance.origin (body : BodyInstance E) : Origin :=
  .copy body.call.nodeId body.iteration body.node.nodeId

/-- The digest of a tree that the serializer writes. -/
def Encoding.digestOf (E : Encoding) (tree : Json) : Digest := E.sha256 ((E.toVec tree).getD [])

/-- The identity that the digest of its scope gives a body node. -/
def BodyInstance.name (parent : CompiledGraph E) (body : BodyInstance E) : NodeId :=
  ⟨generatedText (E.digestOf (scopeWire parent body.call body.iteration)) body.ordinal⟩

/-- The identity that its digest gives a route of a body node. -/
def BodyInstance.routeName (parent : CompiledGraph E) (body : BodyInstance E)
    (routeId : RouteId) : RouteId :=
  ⟨"skr-" ++ (E.digestOf (routeWire (body.name parent) routeId)).hex⟩

/-- `entry` is what `lower_identity` makes of a body node. -/
structure Lowers (parent : CompiledGraph E) (body : BodyInstance E) (entry : LoweredNode) :
    Prop where
  node_eq : entry.node = body.node
  origin_eq : entry.source.origin = body.origin
  generated_eq : entry.generated = body.name parent
  routes_eq : entry.source.routes = body.node.routes.routes.map
    (fun route => (route.routeId, body.routeName parent route.routeId))

variable {calls : List (GraphSubgraphCall E)} {parent : CompiledGraph E}
  {lowered : List LoweredNode}

theorem lowers_of_lowerIdentity {body : BodyInstance E}
    {generated : NodeId} {source : GraphNodeSource}
    (h : lowerIdentity parent body.call body.node body.iteration body.ordinal =
      .ok (generated, source)) : Lowers parent body ⟨body.node, generated, source⟩ := by
  simp only [lowerIdentity, bind_eq_ok, okOr_eq_ok, mapError_eq_ok, mapM_eq_ok] at h
  obtain ⟨bytes, hbytes, identity, hidentity, routes, hroutes, hreturn⟩ := h
  cases hreturn
  have hname : generated = body.name parent := by
    simp only [NodeId.new, bind_eq_ok] at hidentity
    obtain ⟨_, _, hreturn⟩ := hidentity
    cases hreturn
    rw [BodyInstance.name, Encoding.digestOf, hbytes, Option.getD_some]
  refine ⟨rfl, rfl, hname, ?_⟩
  rw [← List.map_id routes]
  refine (map_eq_map_of_forall₂ hroutes (fun route _ recorded hroute => ?_)).symm
  simp only [lowerRoute, RouteId.new, bind_eq_ok, okOr_eq_ok, mapError_eq_ok] at hroute
  obtain ⟨bytes, hbytes, _, ⟨_, _, hvalue⟩, hreturn⟩ := hroute
  cases hvalue
  cases hreturn
  rw [BodyInstance.routeName, Encoding.digestOf, ← hname, hbytes, Option.getD_some, id]

/-- All body nodes of validated calls lowered to distinct identities that the parent does not use. -/
structure Lowering (parent : CompiledGraph E) (calls : List (GraphSubgraphCall E))
    (lowered : List LoweredNode) : Prop where
  valid : ValidCalls parent calls
  rel : List.Forall₂ (Lowers parent) (bodyInstances calls) lowered
  generated_nodup : (lowered.map LoweredNode.generated).Nodup
  fresh : ∀ entry ∈ lowered, entry.generated ∉ nodeIds parent.nodes

theorem lowering_of_lowerInstances (hvalid : ValidCalls parent calls)
    (h : lowerInstances parent [] (bodyInstances calls) = .ok lowered) :
    Lowering parent calls lowered := by
  -- The induction is on the bodies still to lower; identities stay distinct and fresh.
  have hgeneral : ∀ (rest : List (BodyInstance E)) {before out : List LoweredNode},
      (before.map LoweredNode.generated).Nodup →
      (∀ entry ∈ before, entry.generated ∉ nodeIds parent.nodes) →
      lowerInstances parent before rest = .ok out →
      (∃ added, out = before ++ added ∧ List.Forall₂ (Lowers parent) rest added) ∧
        (out.map LoweredNode.generated).Nodup ∧
        ∀ entry ∈ out, entry.generated ∉ nodeIds parent.nodes := by
    intro rest
    induction rest with
    | nil =>
      intro before out hnodup hfresh hout
      cases hout
      exact ⟨⟨[], by simp, .nil⟩, hnodup, hfresh⟩
    | cons body rest ih =>
      intro before out hnodup hfresh hout
      simp only [lowerInstances, bind_eq_ok, reject_eq_ok, not_or, CompiledGraph.node_isSome] at hout
      obtain ⟨⟨generated, source⟩, hidentity, _, ⟨hparent, hunused⟩, hrest⟩ := hout
      have hfresh' : ∀ entry ∈ before ++ [⟨body.node, generated, source⟩],
          entry.generated ∉ nodeIds parent.nodes := by
        intro entry hentry
        rcases List.mem_append.mp hentry with hentry | hentry
        · exact hfresh entry hentry
        · rw [List.mem_singleton.mp hentry]
          exact hparent
      obtain ⟨⟨added, hadded, hrel⟩, hall⟩ :=
        ih (nodup_map_append_singleton.mpr ⟨hnodup, hunused⟩) hfresh' hrest
      refine ⟨⟨⟨body.node, generated, source⟩ :: added, ?_, ?_⟩, hall⟩
      · rw [hadded, List.append_assoc, List.singleton_append]
      · exact .cons (lowers_of_lowerIdentity hidentity) hrel
  obtain ⟨⟨added, hadded, hrel⟩, hnodup, hfresh⟩ :=
    hgeneral (bodyInstances calls) (by simp) (by simp) h
  rw [List.nil_append] at hadded
  exact ⟨hvalid, hadded ▸ hrel, hnodup, hfresh⟩

theorem mem_bodyInstances {body : BodyInstance E} :
    body ∈ bodyInstances calls ↔ body.call ∈ calls ∧
      body.iteration < body.call.maximumIterations ∧
      (body.node, body.ordinal) ∈ body.call.subgraph.bodyNodes := by
  simp only [bodyInstances, List.mem_flatMap, List.mem_map, List.mem_range]
  constructor
  · intro ⟨call, hcall, iteration, hiteration, entry, hentry, heq⟩
    subst heq
    exact ⟨hcall, hiteration, hentry⟩
  · intro ⟨hcall, hiteration, hentry⟩
    exact ⟨body.call, hcall, body.iteration, hiteration, _, hentry, rfl⟩

theorem length_bodyInstances (calls : List (GraphSubgraphCall E)) :
    (bodyInstances calls).length = (calls.map GraphSubgraphCall.copyCount).sum := by
  simp only [bodyInstances, List.length_flatMap, List.length_map, List.map_const',
    List.sum_replicate, List.length_range, smul_eq_mul, SharedStateSubgraph.length_bodyNodes]
  congr 1
  apply List.map_congr_left
  intro call _
  rw [GraphSubgraphCall.copyCount, Nat.mul_comm]

/-- Body nodes of different calls, iterations or template positions have different origins. -/
theorem nodup_origins_bodyInstances
    (hids : (calls.map GraphSubgraphCall.nodeId).Nodup) :
    ((bodyInstances calls).map BodyInstance.origin).Nodup := by
  have hbody : ∀ (call : GraphSubgraphCall E) (iteration : Nat),
      ((call.subgraph.bodyNodes.map fun entry =>
        (⟨call, iteration, entry.1, entry.2⟩ : BodyInstance E)).map BodyInstance.origin).Nodup := by
    intro call iteration
    have hsub : (call.subgraph.bodyNodes.map (fun entry => entry.1.nodeId)).Nodup := by
      have hall : (call.subgraph.graph.nodes.zipIdx.map (fun entry => entry.1.nodeId)).Nodup := by
        have hmap := call.subgraph.graph.ids_nodup
        rw [nodeIds, ← List.zipIdx_map_fst 0 call.subgraph.graph.nodes, List.map_map] at hmap
        exact hmap
      exact hall.sublist (List.filter_sublist.map _)
    rw [List.map_map]
    refine List.Nodup.of_map (fun origin => Origin.casesOn (motive := fun _ => NodeId) origin
      (fun nodeId => nodeId) fun _ _ nodeId => nodeId) ?_
    rw [List.map_map]
    exact hsub
  have hmem : ∀ {call : GraphSubgraphCall E} {iteration : Nat} {origin : Origin},
      origin ∈ (call.subgraph.bodyNodes.map fun entry =>
        (⟨call, iteration, entry.1, entry.2⟩ : BodyInstance E)).map BodyInstance.origin →
      ∃ nodeId, origin = .copy call.nodeId iteration nodeId := by
    intro call iteration origin horigin
    rw [List.map_map] at horigin
    obtain ⟨entry, _, rfl⟩ := List.mem_map.mp horigin
    exact ⟨entry.1.nodeId, rfl⟩
  rw [bodyInstances, List.map_flatMap, List.nodup_flatMap]
  constructor
  · intro call _
    rw [List.map_flatMap, List.nodup_flatMap]
    refine ⟨fun iteration _ => hbody call iteration, ?_⟩
    refine List.nodup_range.imp (fun {i j} hne origin hi hj => ?_)
    obtain ⟨_, rfl⟩ := hmem hi
    obtain ⟨_, heq⟩ := hmem hj
    exact hne (Origin.copy.inj heq).2.1
  · refine (List.pairwise_map.mp hids).imp (fun {call call'} hne origin hi hj => ?_)
    simp only [List.map_flatMap] at hi hj
    obtain ⟨_, _, hi⟩ := List.mem_flatMap.mp hi
    obtain ⟨_, _, hj⟩ := List.mem_flatMap.mp hj
    obtain ⟨_, rfl⟩ := hmem hi
    obtain ⟨_, heq⟩ := hmem hj
    exact hne (Origin.copy.inj heq).1

namespace Lowering

variable {parent : CompiledGraph E} {calls : List (GraphSubgraphCall E)}
  {lowered : List LoweredNode}

variable (h : Lowering parent calls lowered)

include h

theorem length_eq :
    lowered.length = (calls.map GraphSubgraphCall.copyCount).sum := by
  rw [← h.rel.length_eq, length_bodyInstances]

theorem origins_eq :
    lowered.map (fun entry => entry.source.origin) =
      (bodyInstances calls).map BodyInstance.origin :=
  (map_eq_map_of_forall₂ h.rel (fun _ _ _ hentry => hentry.origin_eq.symm)).symm

theorem eq_of_origin_eq {entry entry' : LoweredNode}
    (hentry : entry ∈ lowered) (hentry' : entry' ∈ lowered)
    (horigin : entry.source.origin = entry'.source.origin) : entry = entry' := by
  have hnodup := nodup_origins_bodyInstances h.valid.ids_nodup
  rw [← h.origins_eq] at hnodup
  exact List.inj_on_of_nodup_map hnodup hentry hentry' horigin

theorem eq_of_generated_eq {entry entry' : LoweredNode}
    (hentry : entry ∈ lowered) (hentry' : entry' ∈ lowered)
    (hgenerated : entry.generated = entry'.generated) : entry = entry' :=
  List.inj_on_of_nodup_map h.generated_nodup hentry hentry' hgenerated

theorem exists_entry {call : GraphSubgraphCall E}
    {iteration : Nat} (hcall : call ∈ calls) (hiteration : iteration < call.maximumIterations)
    {node : GraphNode} (hnode : node ∈ call.subgraph.graph.nodes)
    (hbody : node.nodeId ∉ call.subgraph.ports) :
    ∃ entry ∈ lowered, ∃ ordinal, Lowers parent ⟨call, iteration, node, ordinal⟩ entry := by
  obtain ⟨ordinal, hordinal⟩ := SharedStateSubgraph.exists_mem_bodyNodes hnode hbody
  have hmem : (⟨call, iteration, node, ordinal⟩ : BodyInstance E) ∈ bodyInstances calls :=
    mem_bodyInstances.mpr ⟨hcall, hiteration, hordinal⟩
  obtain ⟨entry, hentry, hlowers⟩ := exists_of_forall₂_left h.rel hmem
  exact ⟨entry, hentry, ordinal, hlowers⟩

theorem exists_body {entry : LoweredNode}
    (hentry : entry ∈ lowered) : ∃ body ∈ bodyInstances calls, Lowers parent body entry :=
  exists_of_forall₂_right h.rel hentry

end Lowering

/-! ## Naming the unrolled graph -/

/-- The identity of a node of the unrolled graph. -/
def Names (lowered : List LoweredNode) : Origin → NodeId → Prop
  | .parent nodeId, name => name = nodeId
  | .copy callSite iteration nodeId, name => ∃ entry ∈ lowered,
    entry.source.origin = .copy callSite iteration nodeId ∧ entry.generated = name

theorem generatedFor_eq_some (h : Lowering parent calls lowered) {callSite : NodeId}
    {iteration : Nat} {nodeId name : NodeId} :
    generatedFor lowered callSite iteration nodeId = some name ↔
      Names lowered (.copy callSite iteration nodeId) name := by
  have hkey : ∀ entry : LoweredNode, (entry.source.callSite = callSite ∧
      entry.source.iteration = iteration ∧ entry.source.nodeId = nodeId) ↔
        entry.source.origin = .copy callSite iteration nodeId := by
    intro entry
    simp [GraphNodeSource.origin]
  rw [generatedFor, Option.map_eq_some_iff]
  constructor
  · intro ⟨entry, hfound, hname⟩
    have hmatch := List.find?_some hfound
    exact ⟨entry, List.mem_of_find?_eq_some hfound, (hkey entry).mp (by simpa using hmatch), hname⟩
  · intro ⟨entry, hentry, horigin, hname⟩
    refine ⟨entry, ?_, hname⟩
    have hsome : (lowered.find? (fun entry => entry.source.callSite = callSite ∧
        entry.source.iteration = iteration ∧ entry.source.nodeId = nodeId)).isSome := by
      rw [List.find?_isSome]
      exact ⟨entry, hentry, by simpa using (hkey entry).mpr horigin⟩
    obtain ⟨found, hfound⟩ := Option.isSome_iff_exists.mp hsome
    have hmatch := (hkey found).mp (by simpa using List.find?_some hfound)
    rw [hfound, h.eq_of_origin_eq (List.mem_of_find?_eq_some hfound) hentry
      (hmatch.trans horigin.symm)]

/-- An entry map that holds the named entries of every iteration of every call. -/
structure EntriesOf (calls : List (GraphSubgraphCall E)) (lowered : List LoweredNode)
    (entries : EntryMap) : Prop where
  lookup_call : ∀ call ∈ calls, ∀ iteration < call.maximumIterations,
    ∃ set, entries.lookup (call.nodeId, iteration) = some set ∧
      ∀ name, name ∈ set ↔ ∃ entry ∈ call.subgraph.graph.entryNodes,
        Names lowered (.copy call.nodeId iteration entry) name
  lookup_plain : ∀ nodeId iteration, nodeId ∉ calls.map GraphSubgraphCall.nodeId →
    entries.lookup (nodeId, iteration) = none

theorem entriesOf_of_instanceEntries (hlowering : Lowering parent calls lowered)
    {entries : EntryMap}
    (h : instanceEntries lowered calls = .ok entries) : EntriesOf calls lowered entries := by
  rw [instanceEntries, mapM_eq_ok] at h
  have hkeys : (calls.flatMap fun call => (List.range call.maximumIterations).map (call, ·)).map
      (fun turn => (turn.1.nodeId, turn.2)) = entries.map Prod.fst := by
    refine map_eq_map_of_forall₂ h (fun turn _ entry hentry => ?_)
    simp only [bind_eq_ok] at hentry
    obtain ⟨_, _, hreturn⟩ := hentry
    cases hreturn
    rfl
  have hnodup : (entries.map Prod.fst).Nodup := by
    rw [← hkeys, List.map_flatMap, List.nodup_flatMap]
    constructor
    · intro call _
      rw [List.map_map]
      exact List.nodup_range.map (fun _ _ heq => (Prod.mk.inj heq).2)
    · refine (List.pairwise_map.mp hlowering.valid.ids_nodup).imp (fun {call call'} hne key hi hj => ?_)
      simp only [List.map_map] at hi hj
      obtain ⟨_, _, rfl⟩ := List.mem_map.mp hi
      obtain ⟨_, _, heq⟩ := List.mem_map.mp hj
      exact hne (Prod.mk.inj heq).1.symm
  constructor
  · intro call hcall iteration hiteration
    have hmem : (call, iteration) ∈
        calls.flatMap fun call => (List.range call.maximumIterations).map (call, ·) := by
      rw [List.mem_flatMap]
      exact ⟨call, hcall, List.mem_map.mpr ⟨iteration, List.mem_range.mpr hiteration, rfl⟩⟩
    obtain ⟨entry, hentry, hready⟩ := exists_of_forall₂_left h hmem
    simp only [bind_eq_ok] at hready
    obtain ⟨set, hset, hreturn⟩ := hready
    cases hreturn
    refine ⟨set, (lookup_eq_some_iff_mem hnodup).mpr hentry, fun name => ?_⟩
    rw [mem_of_ready_eq_ok hset, List.mem_flatMap]
    simp only [Option.mem_toList, generatedFor_eq_some hlowering]
    exact Iff.rfl
  · intro nodeId iteration hplain
    apply lookup_eq_none_of_notMem
    rw [← hkeys]
    intro hmem
    obtain ⟨⟨call, _⟩, hturn, heq⟩ := List.mem_map.mp hmem
    obtain ⟨_, hcall, hrange⟩ := List.mem_flatMap.mp hturn
    obtain ⟨_, _, hpair⟩ := List.mem_map.mp hrange
    cases hpair
    exact hplain ((Prod.mk.inj heq).1 ▸ List.mem_map_of_mem hcall)

section Redirection

variable {parent : CompiledGraph E} {calls : List (GraphSubgraphCall E)}
  {lowered : List LoweredNode} {entries : EntryMap}

theorem mem_redirectParent (hentries : EntriesOf calls lowered entries) {nodeId name : NodeId} :
    name ∈ redirectParent entries nodeId ↔
      ∃ origin, ParentTarget calls nodeId origin ∧ Names lowered origin name := by
  by_cases hplain : nodeId ∈ calls.map GraphSubgraphCall.nodeId
  · have hset : ∀ call ∈ calls, call.nodeId = nodeId → (name ∈ redirectParent entries nodeId ↔
        ∃ entry ∈ call.subgraph.graph.entryNodes, Names lowered (.copy nodeId 0 entry) name) := by
      intro call hcall hid
      obtain ⟨set, hlookup, hset⟩ := hentries.lookup_call call hcall 0 call.iterations_ok.1
      rw [redirectParent, ← hid, hlookup]
      exact hset name
    constructor
    · intro hname
      obtain ⟨call, hcall, rfl⟩ := List.mem_map.mp hplain
      obtain ⟨entry, hentry, hnames⟩ := (hset call hcall rfl).mp hname
      exact ⟨_, .entry hcall hentry, hnames⟩
    · intro ⟨origin, horigin, hname⟩
      obtain ⟨call, hcall, hid, entry, hentry, rfl⟩ := horigin.exists_entry hplain
      exact (hset call hcall hid).mpr ⟨entry, hentry, hname⟩
  · rw [redirectParent, hentries.lookup_plain nodeId 0 hplain, List.mem_singleton]
    constructor
    · intro heq
      exact ⟨_, .node hplain, heq⟩
    · intro ⟨origin, horigin, hname⟩
      rw [horigin.eq_parent hplain] at hname
      exact hname

theorem mem_redirectChild (hlowering : Lowering parent calls lowered)
    (hentries : EntriesOf calls lowered entries) {call : GraphSubgraphCall E} (hcall : call ∈ calls)
    {site : GraphNode} {iteration : Nat} {nodeId name : NodeId} :
    name ∈ redirectChild lowered entries site call iteration nodeId ↔
      ∃ origin, ChildTarget calls site call iteration nodeId origin ∧ Names lowered origin name := by
  unfold redirectChild
  split
  · next hbody =>
    rw [Option.mem_toList, generatedFor_eq_some hlowering]
    constructor
    · intro hname
      exact ⟨_, .body hbody, hname⟩
    · intro ⟨origin, horigin, hname⟩
      rw [horigin.eq_copy hbody] at hname
      exact hname
  · next hport =>
    have hport : nodeId ∈ call.subgraph.ports := not_not.mp hport
    split
    · next hagain =>
      obtain ⟨set, hlookup, hset⟩ := hentries.lookup_call call hcall (iteration + 1) hagain.2
      rw [hlookup, Option.map_some, Option.getD_some]
      constructor
      · intro hname
        obtain ⟨entry, hentry, hnames⟩ := (hset name).mp hname
        exact ⟨_, .again hagain.1 hagain.2 hentry, hnames⟩
      · intro ⟨origin, horigin, hname⟩
        cases horigin with
        | body hbody => exact absurd hport hbody
        | again _ _ hentry => exact (hset name).mpr ⟨_, hentry, hname⟩
        | exit _ hlast => exact absurd hagain hlast
    · next hlast =>
      constructor
      · intro hname
        cases hroute : call.returnRoute site nodeId with
        | none =>
          rw [GraphSubgraphCall.returnRoute] at hroute
          rw [hroute] at hname
          cases hname
        | some route =>
          rw [← GraphSubgraphCall.returnRoute, hroute, Option.map_some, Option.getD_some,
            List.mem_flatMap] at hname
          obtain ⟨next, hnext, hname⟩ := hname
          obtain ⟨origin, horigin, hnames⟩ := (mem_redirectParent hentries).mp hname
          exact ⟨origin, .exit hport hlast hroute hnext horigin, hnames⟩
      · intro ⟨origin, horigin, hname⟩
        cases horigin with
        | body hbody => exact absurd hport hbody
        | again hrepeat hnext => exact absurd ⟨hrepeat, hnext⟩ hlast
        | exit _ _ hroute hnext hparent =>
          rw [← GraphSubgraphCall.returnRoute, hroute, Option.map_some, Option.getD_some,
            List.mem_flatMap]
          exact ⟨_, hnext, (mem_redirectParent hentries).mpr ⟨origin, hparent, hname⟩⟩

end Redirection

/-! ## Expansion -/

/-- The recorded source of a generated identity. -/
def sourceOf (lowered : List LoweredNode) (name : NodeId) : Option GraphNodeSource :=
  (lowered.map (fun entry => (entry.generated, entry.source))).lookup name

/-- Routes of a copy carry recorded identities, routes of a parent node their own. -/
def routeName : Option GraphNodeSource → RouteId → RouteId
  | none, routeId => routeId
  | some source, routeId => source.rename routeId

/-- Where a reading of successor sets leads, by name. -/
def Through (lowered : List LoweredNode) (target : NodeId → Origin → Prop)
    (next name : NodeId) : Prop :=
  ∃ origin, target next origin ∧ Names lowered origin name

/-- `node'` realises a node of the unrolled graph. -/
structure Realises (lowered : List LoweredNode) (origin : Origin) (node : GraphNode)
    (target : NodeId → Origin → Prop) (node' : GraphNode) : Prop where
  name : Names lowered origin node'.nodeId
  remaps : Remaps (Through lowered target) (routeName (sourceOf lowered node'.nodeId)) node node'

section Expansion

variable {parent : CompiledGraph E} {calls : List (GraphSubgraphCall E)}
  {lowered : List LoweredNode} {entries : EntryMap}

theorem Lowering.sourceOf_generated (h : Lowering parent calls lowered) {entry : LoweredNode}
    (hentry : entry ∈ lowered) : sourceOf lowered entry.generated = some entry.source := by
  rw [sourceOf, lookup_eq_some_iff_mem]
  · exact List.mem_map_of_mem (f := fun entry => (entry.generated, entry.source)) hentry
  · rw [List.map_map]
    exact h.generated_nodup

theorem Lowering.exists_of_sourceOf (h : Lowering parent calls lowered) {name : NodeId}
    {source : GraphNodeSource} (hsource : sourceOf lowered name = some source) :
    ∃ entry ∈ lowered, entry.generated = name ∧ entry.source = source := by
  rw [sourceOf, lookup_eq_some_iff_mem] at hsource
  · obtain ⟨entry, hentry, hpair⟩ := List.mem_map.mp hsource
    exact ⟨entry, hentry, (Prod.mk.inj hpair).1, (Prod.mk.inj hpair).2⟩
  · rw [List.map_map]
    exact h.generated_nodup

theorem Lowering.sourceOf_parent (h : Lowering parent calls lowered) {nodeId : NodeId}
    (hmem : nodeId ∈ nodeIds parent.nodes) : sourceOf lowered nodeId = none := by
  apply lookup_eq_none_of_notMem
  rw [List.map_map]
  intro hgenerated
  obtain ⟨entry, hentry, rfl⟩ := List.mem_map.mp hgenerated
  exact h.fresh entry hentry hmem

variable {node : GraphNode}

theorem realises_of_expandNode_plain (hlowering : Lowering parent calls lowered)
    (hentries : EntriesOf calls lowered entries) (hnode : node ∈ parent.nodes)
    (hplain : node.nodeId ∉ calls.map GraphSubgraphCall.nodeId) {out : List GraphNode}
    (h : expandNode lowered entries calls node = .ok out) :
    ∃ node', out = [node'] ∧ node'.nodeId = node.nodeId ∧
      Realises lowered (.parent node.nodeId) node (ParentTarget calls) node' := by
  have hnone : calls.find? (·.nodeId = node.nodeId) = none := by
    rw [List.find?_eq_none]
    intro call hcall hid
    exact hplain (List.mem_map.mpr ⟨call, hcall, by simpa using hid⟩)
  rw [expandNode, hnone] at h
  simp only [bind_eq_ok] at h
  obtain ⟨node', hremap, hreturn⟩ := h
  cases hreturn
  obtain ⟨hid, hremaps⟩ := remapNode_eq_ok hremap
  have hleads : (fun next target => target ∈ redirectParent entries next) =
      Through lowered (ParentTarget calls) := by
    funext next target
    exact propext (mem_redirectParent hentries)
  refine ⟨node', rfl, hid, hid, ?_⟩
  rw [hid, hlowering.sourceOf_parent (List.mem_map_of_mem hnode), ← hleads]
  exact hremaps

theorem expandNode_call (hids : (calls.map GraphSubgraphCall.nodeId).Nodup)
    {call : GraphSubgraphCall E} (hcall : call ∈ calls) (hid : call.nodeId = node.nodeId) :
    expandNode lowered entries calls node =
      (lowered.filter (fun entry => entry.source.callSite = node.nodeId)).mapM fun entry =>
        remapNode entry.node entry.generated
          (redirectChild lowered entries node call entry.source.iteration) entry.source.rename := by
  have hsome : (calls.find? (·.nodeId = node.nodeId)).isSome := by
    rw [List.find?_isSome]
    exact ⟨call, hcall, by simpa using hid⟩
  obtain ⟨found, hfound⟩ := Option.isSome_iff_exists.mp hsome
  have hfoundId : found.nodeId = node.nodeId := by simpa using List.find?_some hfound
  have heq : found = call := List.inj_on_of_nodup_map hids (List.mem_of_find?_eq_some hfound)
    hcall (hfoundId.trans hid.symm)
  rw [expandNode, hfound, heq]

/-- A copy at a call site realises the origin that its source records. -/
theorem realises_of_remapNode (hlowering : Lowering parent calls lowered)
    (hentries : EntriesOf calls lowered entries) {site : GraphNode} (hsite : site ∈ parent.nodes)
    {call : GraphSubgraphCall E} (hcall : call ∈ calls) (hid : call.nodeId = site.nodeId)
    {entry : LoweredNode} (hentry : entry ∈ lowered)
    (hcallSite : entry.source.callSite = site.nodeId) {node' : GraphNode}
    (h : remapNode entry.node entry.generated
      (redirectChild lowered entries site call entry.source.iteration) entry.source.rename =
        .ok node') :
    node'.nodeId = entry.generated ∧
      Unrolls parent calls entry.source.origin entry.node
        (ChildTarget calls site call entry.source.iteration) ∧
      Realises lowered entry.source.origin entry.node
        (ChildTarget calls site call entry.source.iteration) node' := by
  obtain ⟨hname, hremaps⟩ := remapNode_eq_ok h
  obtain ⟨body, hbody, hlowers⟩ := hlowering.exists_body hentry
  obtain ⟨hmem, hiteration, hordinal⟩ := mem_bodyInstances.mp hbody
  have horigin := Origin.copy.inj hlowers.origin_eq
  have heq : body.call = call := List.inj_on_of_nodup_map hlowering.valid.ids_nodup hmem hcall
    (horigin.1.symm.trans (hcallSite.trans hid.symm))
  obtain ⟨hnode, hport⟩ := SharedStateSubgraph.mem_nodes_of_mem_bodyNodes hordinal
  refine ⟨hname, ?_, ?_, ?_⟩
  · rw [hlowers.origin_eq, hlowers.node_eq, horigin.2.1, BodyInstance.origin, heq]
    rw [heq] at hiteration hnode hport
    exact .copy hcall hsite hid.symm hiteration hnode hport
  · rw [hname]
    exact ⟨entry, hentry, rfl, rfl⟩
  · have hleads : (fun next target =>
        target ∈ redirectChild lowered entries site call entry.source.iteration next) =
        Through lowered (ChildTarget calls site call entry.source.iteration) := by
      funext next target
      exact propext (mem_redirectChild hlowering hentries hcall)
    rw [hname, hlowering.sourceOf_generated hentry, ← hleads]
    exact hremaps

/-- The expansion has exactly the nodes and entries of the unrolled graph, by name. -/
structure ExpansionOf (parent : CompiledGraph E) (calls : List (GraphSubgraphCall E))
    (expansion : Expansion) : Prop where
  lowering : Lowering parent calls expansion.lowered
  sound : ∀ node' ∈ expansion.nodes, ∃ origin node target,
    Unrolls parent calls origin node target ∧
      Realises expansion.lowered origin node target node'
  complete : ∀ {origin node target}, Unrolls parent calls origin node target →
    ∃ node' ∈ expansion.nodes, Realises expansion.lowered origin node target node'
  entry_iff : ∀ name, name ∈ expansion.entryNodes ↔
    ∃ origin, UnrolledEntry parent calls origin ∧ Names expansion.lowered origin name
  ids_eq : nodeIds expansion.nodes = parent.nodes.flatMap (fun node =>
    if node.nodeId ∈ calls.map GraphSubgraphCall.nodeId then
      (expansion.lowered.filter (fun entry => entry.source.callSite = node.nodeId)).map
        LoweredNode.generated
    else [node.nodeId])

theorem nodeIds_of_expandNode (hlowering : Lowering parent calls lowered)
    (hentries : EntriesOf calls lowered entries) (hnode : node ∈ parent.nodes)
    {out : List GraphNode} (h : expandNode lowered entries calls node = .ok out) :
    nodeIds out = if node.nodeId ∈ calls.map GraphSubgraphCall.nodeId then
        (lowered.filter (fun entry => entry.source.callSite = node.nodeId)).map
          LoweredNode.generated
      else [node.nodeId] := by
  split
  · next hmem =>
    obtain ⟨call, hcall, hid⟩ := List.mem_map.mp hmem
    rw [expandNode_call hlowering.valid.ids_nodup hcall hid, mapM_eq_ok] at h
    have hnames : (lowered.filter (fun entry => entry.source.callSite = node.nodeId)).map
        LoweredNode.generated = out.map GraphNode.nodeId :=
      map_eq_map_of_forall₂ h (fun entry _ node' hremap => (remapNode_eq_ok hremap).1.symm)
    exact hnames.symm
  · next hplain =>
    obtain ⟨node', rfl, hid, _⟩ := realises_of_expandNode_plain hlowering hentries hnode hplain h
    rw [nodeIds, List.map_singleton, hid]

theorem expansionOf_of_expand (hvalid : ValidCalls parent calls) {expansion : Expansion}
    (h : expand parent calls = .ok expansion) : ExpansionOf parent calls expansion := by
  simp only [expand, bind_eq_ok] at h
  obtain ⟨lowered, hlower, entries, hentries, outs, houts, entryNodes, hready, hreturn⟩ := h
  cases hreturn
  have hlowering := lowering_of_lowerInstances hvalid hlower
  have hids := hvalid.ids_nodup
  have hentries := entriesOf_of_instanceEntries hlowering hentries
  rw [mapM_eq_ok] at houts
  refine ⟨hlowering, ?_, ?_, ?_, ?_⟩
  · intro node' hnode'
    obtain ⟨out, hout, hmem⟩ := List.mem_flatten.mp hnode'
    obtain ⟨node, hnode, hexpand⟩ := exists_of_forall₂_right houts hout
    by_cases hplain : node.nodeId ∈ calls.map GraphSubgraphCall.nodeId
    · obtain ⟨call, hcall, hid⟩ := List.mem_map.mp hplain
      rw [expandNode_call hids hcall hid, mapM_eq_ok] at hexpand
      obtain ⟨entry, hentry, hremap⟩ := exists_of_forall₂_right hexpand hmem
      obtain ⟨hlowered, hcallSite⟩ := List.mem_filter.mp hentry
      exact ⟨_, _, _, (realises_of_remapNode hlowering hentries hnode hcall hid hlowered
        (by simpa using hcallSite) hremap).2⟩
    · obtain ⟨copy, rfl, _, hrealises⟩ :=
        realises_of_expandNode_plain hlowering hentries hnode hplain hexpand
      rw [List.mem_singleton.mp hmem]
      exact ⟨_, _, _, .parent hnode hplain, hrealises⟩
  · intro origin node target hunrolls
    cases hunrolls with
    | parent hnode hplain =>
      obtain ⟨out, hout, hexpand⟩ := exists_of_forall₂_left houts hnode
      obtain ⟨copy, rfl, _, hrealises⟩ :=
        realises_of_expandNode_plain hlowering hentries hnode hplain hexpand
      exact ⟨copy, List.mem_flatten.mpr ⟨_, hout, List.mem_singleton_self copy⟩, hrealises⟩
    | @copy call site _ iteration hcall hsite hid hiteration hnode hbody =>
      obtain ⟨out, hout, hexpand⟩ := exists_of_forall₂_left houts hsite
      obtain ⟨entry, hentry, _, hlowers⟩ :=
        hlowering.exists_entry hcall hiteration hnode hbody
      have horigin := Origin.copy.inj hlowers.origin_eq
      have hfilter : entry ∈ lowered.filter (fun entry => entry.source.callSite = site.nodeId) :=
        List.mem_filter.mpr ⟨hentry, by simpa using horigin.1.trans hid.symm⟩
      rw [expandNode_call hids hcall hid.symm, mapM_eq_ok] at hexpand
      obtain ⟨copy, hcopy, hremap⟩ := exists_of_forall₂_left hexpand hfilter
      have hrealises := (realises_of_remapNode hlowering hentries hsite hcall hid.symm hentry
        (horigin.1.trans hid.symm) hremap).2.2
      rw [hlowers.origin_eq, hlowers.node_eq, horigin.2.1] at hrealises
      exact ⟨copy, List.mem_flatten.mpr ⟨out, hout, hcopy⟩, hrealises⟩
  · intro name
    rw [mem_of_ready_eq_ok hready, List.mem_flatMap]
    simp only [mem_redirectParent hentries]
    constructor
    · rintro ⟨entry, hentry, origin, horigin, hname⟩
      exact ⟨origin, ⟨entry, hentry, horigin⟩, hname⟩
    · rintro ⟨origin, ⟨entry, hentry, horigin⟩, hname⟩
      exact ⟨entry, hentry, origin, horigin, hname⟩
  · have hnames : parent.nodes.map (fun node =>
        if node.nodeId ∈ calls.map GraphSubgraphCall.nodeId then
          (lowered.filter (fun entry => entry.source.callSite = node.nodeId)).map
            LoweredNode.generated
        else [node.nodeId]) = outs.map nodeIds :=
      map_eq_map_of_forall₂ houts (fun node hnode out hexpand =>
        (nodeIds_of_expandNode hlowering hentries hnode hexpand).symm)
    rw [List.flatMap, hnames]
    exact List.map_flatten

end Expansion

/-! ## Shape of the expansion -/

/-- Every call has a site of its own among the parent's nodes. -/
theorem ValidCalls.length_sites (hvalid : ValidCalls parent calls) :
    ((nodeIds parent.nodes).filter
      (fun nodeId => decide (nodeId ∈ calls.map GraphSubgraphCall.nodeId))).length =
      calls.length := by
  rw [← List.length_map (f := GraphSubgraphCall.nodeId)]
  refine List.Perm.length_eq ((List.perm_ext_iff_of_nodup (parent.ids_nodup.filter _)
    hvalid.ids_nodup).mpr (fun nodeId => ?_))
  rw [List.mem_filter, decide_eq_true_eq]
  refine ⟨fun hmem => hmem.2, fun hmem => ⟨?_, hmem⟩⟩
  obtain ⟨call, hcall, rfl⟩ := List.mem_map.mp hmem
  obtain ⟨site, hsite⟩ := hvalid.exists_callSite hcall
  exact hsite.nodeId_eq ▸ List.mem_map_of_mem hsite.mem

/-- The identities of the expansion: the parent's except the call sites, and the generated ones. -/
def expandedIds (parent : CompiledGraph E) (calls : List (GraphSubgraphCall E))
    (lowered : List LoweredNode) : List NodeId :=
  (nodeIds parent.nodes).filter (fun nodeId => !decide (nodeId ∈ calls.map GraphSubgraphCall.nodeId)) ++
    lowered.map LoweredNode.generated

theorem Lowering.length_expandedIds (h : Lowering parent calls lowered) :
    (expandedIds parent calls lowered).length = expandedCount parent calls := by
  -- Parent nodes split into call sites and others.
  have hsplit := List.length_eq_length_filter_add
    (fun nodeId => decide (nodeId ∈ calls.map GraphSubgraphCall.nodeId)) (l := nodeIds parent.nodes)
  have hsites := h.valid.length_sites
  have hlowered := h.length_eq
  have hadd := expandedCount_add parent calls
  rw [expandedIds, List.length_append, List.length_map]
  simp only [nodeIds, List.length_map] at hsplit hsites ⊢
  omega

namespace ExpansionOf

variable {parent : CompiledGraph E} {calls : List (GraphSubgraphCall E)} {expansion : Expansion}

variable (h : ExpansionOf parent calls expansion)

include h

theorem valid : ValidCalls parent calls :=
  h.lowering.valid

theorem ids_nodup : (nodeIds expansion.nodes).Nodup := by
  have hgenerated : ∀ {callSite name : NodeId},
      name ∈ (expansion.lowered.filter (fun entry => entry.source.callSite = callSite)).map
        LoweredNode.generated →
      ∃ entry ∈ expansion.lowered, entry.source.callSite = callSite ∧ entry.generated = name := by
    intro callSite name hname
    obtain ⟨entry, hentry, hgenerated⟩ := List.mem_map.mp hname
    obtain ⟨hlowered, hcallSite⟩ := List.mem_filter.mp hentry
    exact ⟨entry, hlowered, by simpa using hcallSite, hgenerated⟩
  rw [h.ids_eq, List.nodup_flatMap]
  constructor
  · intro node _
    split
    · exact h.lowering.generated_nodup.sublist (List.filter_sublist.map _)
    · exact List.nodup_singleton _
  · -- Parent identities differ, generated ones are fresh, and copies know their call site.
    have hsorted : parent.nodes.Pairwise (fun a b => a.nodeId ≠ b.nodeId) :=
      List.pairwise_map.mp parent.ids_nodup
    refine hsorted.imp_of_mem (fun {node node'} hnode hnode' hne name hname hname' => ?_)
    simp only at hname hname'
    split at hname <;> split at hname'
    · obtain ⟨entry, hentry, hsite, hgen⟩ := hgenerated hname
      obtain ⟨entry', hentry', hsite', hgen'⟩ := hgenerated hname'
      have heq := h.lowering.eq_of_generated_eq hentry hentry' (hgen.trans hgen'.symm)
      exact hne (hsite.symm.trans (heq ▸ hsite'))
    · obtain ⟨entry, hentry, _, hgen⟩ := hgenerated hname
      rw [List.mem_singleton.mp hname'] at hgen
      exact h.lowering.fresh entry hentry (hgen ▸ List.mem_map_of_mem hnode')
    · obtain ⟨entry, hentry, _, hgen⟩ := hgenerated hname'
      rw [List.mem_singleton.mp hname] at hgen
      exact h.lowering.fresh entry hentry (hgen ▸ List.mem_map_of_mem hnode)
    · exact hne ((List.mem_singleton.mp hname).symm.trans (List.mem_singleton.mp hname'))

/-- The expansion has the parent's nodes except the call sites, and all copies. -/
theorem nodeIds_perm :
    (nodeIds expansion.nodes).Perm (expandedIds parent calls expansion.lowered) := by
  have hnodup : (expandedIds parent calls expansion.lowered).Nodup := by
    refine List.nodup_append.mpr ⟨parent.ids_nodup.filter _, h.lowering.generated_nodup, ?_⟩
    intro nodeId hparent name hname heq
    obtain ⟨entry, hentry, rfl⟩ := List.mem_map.mp hname
    exact h.lowering.fresh entry hentry (heq ▸ (List.mem_filter.mp hparent).1)
  refine (List.perm_ext_iff_of_nodup h.ids_nodup hnodup).mpr (fun name => ?_)
  rw [h.ids_eq, List.mem_flatMap, expandedIds, List.mem_append]
  constructor
  · intro ⟨node, hnode, hname⟩
    split at hname
    · obtain ⟨entry, hentry, rfl⟩ := List.mem_map.mp hname
      exact .inr (List.mem_map_of_mem (List.mem_filter.mp hentry).1)
    · next hplain =>
      rw [List.mem_singleton.mp hname]
      exact .inl (List.mem_filter.mpr ⟨List.mem_map_of_mem hnode, by simpa using hplain⟩)
  · intro hname
    rcases hname with hname | hname
    · obtain ⟨hmem, hplain⟩ := List.mem_filter.mp hname
      obtain ⟨node, hnode, rfl⟩ := List.mem_map.mp hmem
      refine ⟨node, hnode, ?_⟩
      rw [if_neg (by simpa using hplain)]
      exact List.mem_singleton.mpr rfl
    · -- A copy stands where its call site stood.
      obtain ⟨entry, hentry, rfl⟩ := List.mem_map.mp hname
      obtain ⟨body, hbody, hlowers⟩ := h.lowering.exists_body hentry
      have hcall := (mem_bodyInstances.mp hbody).1
      obtain ⟨site, hsite⟩ := h.valid.exists_callSite hcall
      have hcallSite : entry.source.callSite = site.nodeId :=
        (Origin.copy.inj hlowers.origin_eq).1.trans hsite.nodeId_eq.symm
      refine ⟨site, hsite.mem, ?_⟩
      rw [if_pos (hsite.nodeId_eq ▸ List.mem_map_of_mem hcall)]
      exact List.mem_map_of_mem (List.mem_filter.mpr ⟨hentry, decide_eq_true hcallSite⟩)

theorem length_eq :
    expansion.nodes.length = expandedCount parent calls := by
  rw [← h.lowering.length_expandedIds, ← h.nodeIds_perm.length_eq, nodeIds,
    List.length_map]

theorem length_le :
    expansion.nodes.length ≤ CompiledGraph.maxNodes := by
  rw [h.length_eq]
  exact h.valid.count

variable {origin : Origin}

theorem names_unique {name name' : NodeId} (hname : Names expansion.lowered origin name)
    (hname' : Names expansion.lowered origin name') : name = name' := by
  cases origin with
  | parent nodeId =>
    rw [Names] at hname hname'
    exact hname.trans hname'.symm
  | copy callSite iteration nodeId =>
    obtain ⟨entry, hentry, horigin, rfl⟩ := hname
    obtain ⟨entry', hentry', horigin', rfl⟩ := hname'
    rw [h.lowering.eq_of_origin_eq hentry hentry'
      (horigin.trans horigin'.symm)]

theorem exists_realises {node : GraphNode}
    {target : NodeId → Origin → Prop} (hunrolls : Unrolls parent calls origin node target)
    {name : NodeId} (hname : Names expansion.lowered origin name) :
    ∃ node' ∈ expansion.nodes, node'.nodeId = name ∧
      Realises expansion.lowered origin node target node' := by
  obtain ⟨node', hnode', hrealises⟩ := h.complete hunrolls
  exact ⟨node', hnode', h.names_unique hrealises.name hname, hrealises⟩

theorem closed :
    Closed expansion.nodes expansion.entryNodes := by
  have hmem : ∀ {origin name}, (∃ node target, Unrolls parent calls origin node target) →
      Names expansion.lowered origin name → name ∈ nodeIds expansion.nodes := by
    intro origin name ⟨node, target, hunrolls⟩ hname
    obtain ⟨node', hnode', hid, _⟩ := h.exists_realises hunrolls hname
    exact hid ▸ List.mem_map_of_mem hnode'
  constructor
  · intro name hname
    obtain ⟨origin, hentry, hnames⟩ := (h.entry_iff name).mp hname
    exact hmem (hentry.exists_unrolls h.valid) hnames
  · intro node' hnode' name hname
    obtain ⟨origin, node, target, hunrolls, hrealises⟩ := h.sound node' hnode'
    obtain ⟨next, hnext, origin', htarget, hnames⟩ := hrealises.remaps.mem_successors.mp hname
    have hstep : UnrolledStep parent calls origin origin' :=
      ⟨node, target, hunrolls, next, hnext, htarget⟩
    exact hmem (hstep.exists_unrolls h.valid) hnames

theorem reaches_of_path {origin origin' : Origin}
    (hpath : UnrolledPath parent calls origin origin') {name : NodeId}
    (hname : Names expansion.lowered origin name) :
    ∃ name', Names expansion.lowered origin' name' ∧
      Reaches (successorsOf expansion.nodes) name name' := by
  induction hpath with
  | refl => exact ⟨name, hname, .refl⟩
  | @tail middle last _ hstep ih =>
    obtain ⟨name', hname', hreach⟩ := ih
    obtain ⟨_, _, hlast⟩ := hstep.exists_unrolls h.valid
    obtain ⟨last', _, hrealises⟩ := h.complete hlast
    obtain ⟨node, target, hunrolls, next, hnext, htarget⟩ := hstep
    obtain ⟨node', hnode', rfl, hcopy⟩ := h.exists_realises hunrolls hname'
    have hedge : last'.nodeId ∈ successorsOf expansion.nodes node'.nodeId := by
      rw [successorsOf_nodeId h.ids_nodup hnode', hcopy.remaps.mem_successors]
      exact ⟨next, hnext, last, htarget, hrealises.name⟩
    exact ⟨last'.nodeId, hrealises.name, hreach.tail hedge⟩

theorem connected :
    Connected expansion.nodes expansion.entryNodes := by
  constructor
  · intro node' hnode'
    obtain ⟨origin, node, target, hunrolls, hrealises⟩ := h.sound node' hnode'
    obtain ⟨first, hfirst, hpath⟩ := unrolled_reachable h.valid hunrolls
    obtain ⟨_, _, hentry⟩ := hfirst.exists_unrolls h.valid
    obtain ⟨entry, _, hcopy⟩ := h.complete hentry
    obtain ⟨name, hname, hreach⟩ := h.reaches_of_path hpath hcopy.name
    rw [h.names_unique hname hrealises.name] at hreach
    exact ⟨entry.nodeId, (h.entry_iff _).mpr ⟨first, hfirst, hcopy.name⟩, hreach⟩
  · intro node' hnode'
    obtain ⟨origin, node, target, hunrolls, hrealises⟩ := h.sound node' hnode'
    obtain ⟨last, ⟨source, reading, hlast, hboundary⟩, hpath⟩ := unrolled_boundary h.valid hunrolls
    obtain ⟨name, hname, hreach⟩ := h.reaches_of_path hpath hrealises.name
    obtain ⟨last', hmem, rfl, hcopy⟩ := h.exists_realises hlast hname
    exact ⟨last', hmem, hcopy.remaps.isBoundary_eq.trans hboundary, hreach⟩

theorem entry_nonempty : expansion.entryNodes.nodes ≠ [] := by
  obtain ⟨entry, hentry⟩ := List.exists_mem_of_ne_nil _ parent.wellShaped.entry_nonempty
  obtain ⟨source, hsource, rfl⟩ :=
    List.mem_map.mp (parent.wellShaped.closed.entry_mem entry hentry)
  obtain ⟨origin, horigin, _⟩ := exists_parent_boundary h.valid hsource
  have hfirst : UnrolledEntry parent calls origin := ⟨_, hentry, horigin⟩
  obtain ⟨_, _, hunrolls⟩ := hfirst.exists_unrolls h.valid
  obtain ⟨node', _, hrealises⟩ := h.complete hunrolls
  exact List.ne_nil_of_mem ((h.entry_iff _).mpr ⟨origin, hfirst, hrealises.name⟩)

theorem nodes_nonempty : expansion.nodes ≠ [] := by
  obtain ⟨entry, hentry⟩ := List.exists_mem_of_ne_nil _ h.entry_nonempty
  obtain ⟨node, hnode, _⟩ := List.mem_map.mp (h.closed.entry_mem entry hentry)
  exact List.ne_nil_of_mem hnode

end ExpansionOf

end StateKnot
