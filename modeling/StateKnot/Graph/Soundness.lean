import StateKnot.Graph.Expansion
import StateKnot.Lib.Utf8

/-!
# Soundness of composition

Calls that pass validation expand, unless generated identities collide, and the
final compilation of the expansion rejects at most its parallelism or the size of
its encoding.  Three facts carry this.  Generated texts are well-formed
identities.  Instances that differ have different preimages, so their identities
differ as long as the digest does not collide.  And every redirected successor set
is a nonempty set of nodes of the expansion, whose number `collect_calls` bounds.
-/

namespace StateKnot

open Lib

variable {E : Encoding}

/-! ## Generated texts -/

theorem toList_pad4 (n : Nat) : (pad4 n).toList =
    List.replicate (4 - (Nat.toDigits 10 n).length) '0' ++ Nat.toDigits 10 n := by
  simp [pad4, Nat.repr]

theorem pad4_lt_succ : ∀ n < CompiledGraph.maxNodes,
    List.replicate (4 - (Nat.toDigits 10 n).length) '0' ++ Nat.toDigits 10 n <
      List.replicate (4 - (Nat.toDigits 10 (n + 1)).length) '0' ++ Nat.toDigits 10 (n + 1) := by
  decide +kernel

theorem pad4_strictMono {m n : Nat} (hlt : m < n) (hn : n ≤ CompiledGraph.maxNodes) :
    (pad4 m).toList < (pad4 n).toList := by
  induction n with
  | zero => omega
  | succ n ih =>
    have hstep : (pad4 n).toList < (pad4 (n + 1)).toList := by
      rw [toList_pad4, toList_pad4]
      exact pad4_lt_succ n (by omega)
    rcases Nat.lt_succ_iff_lt_or_eq.mp hlt with hlt | rfl
    · exact (ih hlt (by omega)).trans hstep
    · exact hstep

theorem pad4_digits : ∀ n < CompiledGraph.maxNodes,
    (List.replicate (4 - (Nat.toDigits 10 n).length) '0' ++ Nat.toDigits 10 n).length = 4 ∧
      (List.replicate (4 - (Nat.toDigits 10 n).length) '0' ++ Nat.toDigits 10 n).all
        isAsciiAlphanumeric = true := by
  decide +kernel

theorem isAsciiAlphanumeric_of_mem_hex {digest : Digest} {c : Char}
    (h : c ∈ digest.hex.toList) : isAsciiAlphanumeric c = true := by
  have hdigits : ∀ n < 16, isAsciiAlphanumeric (Digest.hexDigit n) = true := by decide
  obtain ⟨n, hn, rfl⟩ := Digest.exists_of_mem_hex h
  exact hdigits n hn

theorem utf8Size_of_isAsciiAlphanumeric {c : Char} (h : isAsciiAlphanumeric c = true) :
    c.utf8Size = 1 := by
  have hle : c.val ≤ 127 := by
    simp only [isAsciiAlphanumeric, Bool.or_eq_true, Bool.and_eq_true, decide_eq_true_eq] at h
    rcases h with (h | h) | h
    · exact UInt32.le_trans (show c.val ≤ 'z'.val from h.2) (by decide)
    · exact UInt32.le_trans (show c.val ≤ 'Z'.val from h.2) (by decide)
    · exact UInt32.le_trans (show c.val ≤ '9'.val from h.2) (by decide)
  exact if_pos hle

/-- A short text that starts with a letter and has only alphanumeric characters and dashes. -/
theorem validateIdentText_of_chars {value : String} (rest : List Char)
    (hvalue : value.toList = 's' :: rest)
    (hrest : ∀ c ∈ rest, isAsciiAlphanumeric c = true ∨ c = '-') (hlength : rest.length < 128) :
    validateIdentText value = .ok () := by
  have hchars : ∀ c ∈ value.toList, isAsciiAlphanumeric c = true ∨ c = '-' := by
    rw [hvalue]
    exact List.forall_mem_cons.mpr ⟨.inl (by decide), hrest⟩
  have hsize : value.utf8ByteSize = value.toList.length := by
    refine utf8ByteSize_of_ascii fun c hc => ?_
    rcases hchars c hc with hc | rfl
    · exact utf8Size_of_isAsciiAlphanumeric hc
    · rfl
  have hne : ∀ {text : String}, text.toList.head? ≠ some 's' → value ≠ text := by
    rintro text htext rfl
    exact htext (by rw [hvalue]; rfl)
  have hvalid : value.toList.findIdx?
      (fun c => !isAsciiAlphanumeric c && c != '.' && c != '_' && c != '-') = none := by
    rw [List.findIdx?_eq_none_iff]
    intro c hc
    rcases hchars c hc with hc | rfl
    · simp [hc]
    · rfl
  simp only [validateIdentText, bind_eq_ok, reject_eq_ok, exists_const, hvalid]
  refine ⟨hne (by decide), ?_, ?_, ?_, rfl⟩
  · rw [hsize, hvalue, List.length_cons]
    omega
  · exact not_or.mpr ⟨hne (by decide), hne (by decide)⟩
  · rw [hvalue, List.head?_cons]
    decide

variable {digest : Digest}

theorem toList_generatedText (digest : Digest) (n : Nat) : (generatedText digest n).toList =
    's' :: 'k' :: 'c' :: '-' :: (digest.hex.toList ++ '-' :: (pad4 n).toList) := by
  simp [generatedText]

theorem new_generatedText (hdigest : digest.bytes.length ≤ 32) {n : Nat}
    (hn : n < CompiledGraph.maxNodes) :
    NodeId.new (generatedText digest n) = .ok ⟨generatedText digest n⟩ := by
  obtain ⟨hlength, hdigits⟩ := pad4_digits n hn
  rw [← toList_pad4] at hlength hdigits
  rw [NodeId.new, validateIdentText_of_chars _ (toList_generatedText digest n)]
  · rfl
  · simp only [List.mem_cons, List.mem_append]
    rintro c (rfl | rfl | rfl | hc | rfl | hc)
    · decide
    · decide
    · decide
    · exact .inl (isAsciiAlphanumeric_of_mem_hex hc)
    · exact .inr rfl
    · exact .inl (List.all_eq_true.mp hdigits c hc)
  · simp only [List.length_cons, List.length_append, Digest.length_hex, hlength]
    omega

theorem new_routeText (hdigest : digest.bytes.length ≤ 32) :
    RouteId.new ("skr-" ++ digest.hex) = .ok ⟨"skr-" ++ digest.hex⟩ := by
  rw [RouteId.new, validateIdentText_of_chars ('k' :: 'r' :: '-' :: digest.hex.toList)]
  · rfl
  · simp
  · simp only [List.mem_cons]
    rintro c (rfl | rfl | rfl | hc)
    · decide
    · decide
    · decide
    · exact .inl (isAsciiAlphanumeric_of_mem_hex hc)
  · simp only [List.length_cons, Digest.length_hex]
    omega

theorem pad4_injective {m n : Nat} (hm : m < CompiledGraph.maxNodes)
    (hn : n < CompiledGraph.maxNodes) (h : (pad4 m).toList = (pad4 n).toList) : m = n := by
  rcases lt_trichotomy m n with hlt | heq | hlt
  · exact absurd h (pad4_strictMono hlt hn.le).ne
  · exact heq
  · exact absurd h (pad4_strictMono hlt hm.le).ne'

/-- A generated text determines the digest and the position in it. -/
theorem generatedText_inj {digest' : Digest} {m n : Nat} (hm : m < CompiledGraph.maxNodes)
    (hn : n < CompiledGraph.maxNodes) (h : generatedText digest m = generatedText digest' n) :
    digest = digest' ∧ m = n := by
  have hlist := congrArg String.toList h
  rw [toList_generatedText, toList_generatedText] at hlist
  simp only [List.cons.injEq, true_and] at hlist
  -- neither part of the first text holds the dash between them
  have hhex : '-' ∉ digest.hex.toList := fun hmem =>
    absurd (isAsciiAlphanumeric_of_mem_hex hmem) (by decide)
  have hpad : '-' ∉ (pad4 m).toList := by
    rw [toList_pad4]
    exact fun hmem => absurd (List.all_eq_true.mp (pad4_digits m hm).2 _ hmem) (by decide)
  obtain ⟨hdigest, _, hordinal⟩ := (List.append_cons_inj_of_notMem hhex hpad).mp hlist
  exact ⟨Digest.hex_injective (String.toList_injective hdigest), pad4_injective hm hn hordinal⟩

/-! ## Distinct identities -/

variable {parent : CompiledGraph E} {calls : List (GraphSubgraphCall E)}
  {lowered : List LoweredNode} {body body' : BodyInstance E}

/-- The trees whose digests name the copies and their routes. -/
def namePreimages (parent : CompiledGraph E) (calls : List (GraphSubgraphCall E)) : List Json :=
  (bodyInstances calls).flatMap fun body =>
    scopeWire parent body.call body.iteration ::
      body.node.routes.routes.map fun route => routeWire (body.name parent) route.routeId

/-- Generated identities collide neither in the digest nor with the parent's own. -/
structure NamesApart (parent : CompiledGraph E) (calls : List (GraphSubgraphCall E)) : Prop where
  digests : ∀ a ∈ namePreimages parent calls, ∀ b ∈ namePreimages parent calls,
    E.digestOf a = E.digestOf b → a.rfc8785 = b.rfc8785
  nodes_fresh : ∀ body ∈ bodyInstances calls, body.name parent ∉ nodeIds parent.nodes
  routes_fresh : ∀ body ∈ bodyInstances calls, ∀ route ∈ body.node.routes.routes,
    body.routeName parent route.routeId ∉ routeIds parent.nodes

instance (parent : CompiledGraph E) (calls : List (GraphSubgraphCall E)) :
    Decidable (NamesApart parent calls) :=
  decidable_of_iff (_ ∧ _ ∧ _)
    ⟨fun h => ⟨h.1, h.2.1, h.2.2⟩, fun h => ⟨h.digests, h.nodes_fresh, h.routes_fresh⟩⟩

theorem scopeWire_mem_namePreimages (hbody : body ∈ bodyInstances calls) :
    scopeWire parent body.call body.iteration ∈ namePreimages parent calls :=
  List.mem_flatMap.mpr ⟨body, hbody, List.mem_cons_self⟩

theorem routeWire_mem_namePreimages (hbody : body ∈ bodyInstances calls) {route : GraphRoute}
    (hroute : route ∈ body.node.routes.routes) :
    routeWire (body.name parent) route.routeId ∈ namePreimages parent calls :=
  List.mem_flatMap.mpr ⟨body, hbody, List.mem_cons_of_mem _
    (List.mem_map_of_mem (f := fun route => routeWire (body.name parent) route.routeId) hroute)⟩

theorem ordinal_lt_of_mem_bodyInstances (hbody : body ∈ bodyInstances calls) :
    body.ordinal < CompiledGraph.maxNodes := by
  have hget := (SharedStateSubgraph.mem_bodyNodes.mp (mem_bodyInstances.mp hbody).2.2).1
  obtain ⟨hindex, _⟩ := List.getElem?_eq_some_iff.mp hget
  exact hindex.trans_le body.call.subgraph.graph.collectable.bounded

theorem iteration_lt_of_mem_bodyInstances (hbody : body ∈ bodyInstances calls) :
    body.iteration < 2 ^ 53 :=
  (mem_bodyInstances.mp hbody).2.1.trans_le (body.call.iterations_ok.2.trans (by decide))

/-- A scope is written with its call site and its iteration. -/
theorem eq_of_scopeWire_eq (hbody : body ∈ bodyInstances calls)
    (hbody' : body' ∈ bodyInstances calls)
    (h : (scopeWire parent body.call body.iteration).rfc8785 =
      (scopeWire parent body'.call body'.iteration).rfc8785) :
    body.call.nodeId = body'.call.nodeId ∧ body.iteration = body'.iteration := by
  have hvalues := Json.values_of_rfc8785_eq h rfl (by simp)
  simp only [List.map_cons, List.cons.injEq, Ident.rfc8785_inj] at hvalues
  exact ⟨hvalues.2.2.2.1, (Json.rfc8785_nat_inj (iteration_lt_of_mem_bodyInstances hbody)
    (iteration_lt_of_mem_bodyInstances hbody')).mp hvalues.2.2.2.2.1⟩

/-- A route is written with its copy and its name in the template. -/
theorem eq_of_routeWire_eq {name name' : NodeId} {routeId routeId' : RouteId}
    (h : (routeWire name routeId).rfc8785 = (routeWire name' routeId').rfc8785) :
    name = name' ∧ routeId = routeId' := by
  have hvalues := Json.values_of_rfc8785_eq h rfl (by simp)
  simp only [List.map_cons, List.map_nil, List.cons.injEq, Ident.rfc8785_inj,
    and_true] at hvalues
  exact hvalues.2

namespace NamesApart

/-- Body nodes under one generated identity are the same. -/
theorem eq_of_name_eq (h : NamesApart parent calls)
    (hids : (calls.map GraphSubgraphCall.nodeId).Nodup) (hbody : body ∈ bodyInstances calls)
    (hbody' : body' ∈ bodyInstances calls) (hname : body.name parent = body'.name parent) :
    body = body' := by
  obtain ⟨hdigest, hordinal⟩ := generatedText_inj (ordinal_lt_of_mem_bodyInstances hbody)
    (ordinal_lt_of_mem_bodyInstances hbody') (congrArg Ident.text hname)
  obtain ⟨hsite, hiteration⟩ := eq_of_scopeWire_eq hbody hbody' (h.digests _
    (scopeWire_mem_namePreimages hbody) _ (scopeWire_mem_namePreimages hbody') hdigest)
  obtain ⟨hcall, _, hnode⟩ := mem_bodyInstances.mp hbody
  obtain ⟨hcall', _, hnode'⟩ := mem_bodyInstances.mp hbody'
  have hcalls : body.call = body'.call := List.inj_on_of_nodup_map hids hcall hcall' hsite
  -- one position of one template
  have hget := (SharedStateSubgraph.mem_bodyNodes.mp hnode).1
  have hget' := (SharedStateSubgraph.mem_bodyNodes.mp hnode').1
  rw [hcalls, hordinal, hget'] at hget
  cases body
  cases body'
  simp_all

/-- Routes of copies under one generated identity are the same route of the same copy. -/
theorem eq_of_routeName_eq (h : NamesApart parent calls) (hbody : body ∈ bodyInstances calls)
    (hbody' : body' ∈ bodyInstances calls) {route route' : GraphRoute}
    (hroute : route ∈ body.node.routes.routes) (hroute' : route' ∈ body'.node.routes.routes)
    (hname : body.routeName parent route.routeId = body'.routeName parent route'.routeId) :
    body.name parent = body'.name parent ∧ route.routeId = route'.routeId := by
  have htext := congrArg Ident.text hname
  have hdigest : E.digestOf (routeWire (body.name parent) route.routeId) =
      E.digestOf (routeWire (body'.name parent) route'.routeId) :=
    Digest.hex_injective (by simpa [BodyInstance.routeName] using htext)
  exact eq_of_routeWire_eq (h.digests _ (routeWire_mem_namePreimages hbody hroute) _
    (routeWire_mem_namePreimages hbody' hroute') hdigest)

end NamesApart

/-- The recorded renaming gives a route its generated identity. -/
theorem Lowers.rename_eq {entry : LoweredNode} (h : Lowers parent body entry)
    {route : GraphRoute} (hroute : route ∈ body.node.routes.routes) :
    entry.source.rename route.routeId = body.routeName parent route.routeId := by
  have hkeys : (entry.source.routes.map Prod.fst).Nodup := by
    rw [h.routes_eq, List.map_map]
    exact body.node.routes.sorted.nodup_keys
  have hlookup : entry.source.routes.lookup route.routeId =
      some (body.routeName parent route.routeId) := by
    rw [lookup_eq_some_iff_mem hkeys, h.routes_eq]
    exact List.mem_map.mpr ⟨route, hroute, rfl⟩
  rw [GraphNodeSource.rename, hlookup, Option.getD_some]

theorem ExpansionOf.routes_nodup {expansion : Expansion} (h : ExpansionOf parent calls expansion)
    (hapart : NamesApart parent calls) : (routeIds expansion.nodes).Nodup := by
  -- what a route of the expansion is called, by the origin of its node
  have hnamed : ∀ node' ∈ expansion.nodes, ∀ routeId ∈ node'.routes.routes.map GraphRoute.routeId,
      (routeId, node'.nodeId) ∈ routeOwners parent.nodes ∨
      ∃ body ∈ bodyInstances calls, node'.nodeId = body.name parent ∧
        ∃ route ∈ body.node.routes.routes, routeId = body.routeName parent route.routeId := by
    intro node' hnode' routeId hrouteId
    obtain ⟨route', hroute', rfl⟩ := List.mem_map.mp hrouteId
    obtain ⟨origin, node, target, hunrolls, hrealises⟩ := h.sound node' hnode'
    obtain ⟨route, hroute, hname, _⟩ := hrealises.remaps.route_from route' hroute'
    cases hunrolls with
    | parent hnode =>
      have hid : node'.nodeId = node.nodeId := hrealises.name
      rw [hid, h.lowering.sourceOf_parent (List.mem_map_of_mem hnode)] at hname
      rw [hname, hid]
      exact .inl (List.mem_flatMap.mpr ⟨node, hnode, List.mem_map.mpr ⟨route, hroute, rfl⟩⟩)
    | @copy call _ _ iteration hcall _ _ hiteration hnode hport =>
      obtain ⟨ordinal, hordinal⟩ := SharedStateSubgraph.exists_mem_bodyNodes hnode hport
      have hbody : (⟨call, iteration, node, ordinal⟩ : BodyInstance E) ∈ bodyInstances calls :=
        mem_bodyInstances.mpr ⟨hcall, hiteration, hordinal⟩
      obtain ⟨entry, hentry, hlowers⟩ := exists_of_forall₂_left h.lowering.rel hbody
      obtain ⟨entry', hentry', horigin, hid⟩ := hrealises.name
      obtain rfl := h.lowering.eq_of_origin_eq hentry hentry'
        (hlowers.origin_eq.trans horigin.symm)
      rw [← hid, h.lowering.sourceOf_generated hentry] at hname
      exact .inr ⟨_, hbody, hid.symm.trans hlowers.generated_eq, route, hroute,
        hname.trans (hlowers.rename_eq hroute)⟩
  have howned : ∀ {routeId nodeId}, (routeId, nodeId) ∈ routeOwners parent.nodes →
      routeId ∈ routeIds parent.nodes := fun hmem => by
    rw [← map_fst_routeOwners]
    exact List.mem_map_of_mem hmem
  rw [routeIds, List.nodup_flatMap]
  refine ⟨fun node' _ => node'.routes.sorted.nodup_keys, ?_⟩
  refine (List.pairwise_map.mp h.ids_nodup).imp_of_mem (fun {a b} ha hb hne routeId hra hrb => ?_)
  rcases hnamed a ha routeId hra with howner | ⟨body, hbody, hid, route, hroute, rfl⟩
  · rcases hnamed b hb routeId hrb with howner' | ⟨body', hbody', _, route', hroute', rfl⟩
    · have hnodup := parent.collectable.routes_nodup
      rw [← map_fst_routeOwners] at hnodup
      exact hne (Prod.mk.inj (List.inj_on_of_nodup_map hnodup howner howner' rfl)).2
    · exact hapart.routes_fresh body' hbody' route' hroute' (howned howner)
  · rcases hnamed b hb _ hrb with howner' | ⟨body', hbody', hid', route', hroute', heq⟩
    · exact hapart.routes_fresh body hbody route hroute (howned howner')
    · have hsame := (hapart.eq_of_routeName_eq hbody hbody' hroute hroute' heq).1
      exact hne (hid.trans (hsame.trans hid'.symm))

/-! ## Expansion succeeds -/

theorem Lowers.renamed_nodup {entry : LoweredNode} (h : Lowers parent body entry)
    (hbody : body ∈ bodyInstances calls) (hapart : NamesApart parent calls) :
    (body.node.routes.routes.map (fun route => entry.source.rename route.routeId)).Nodup := by
  refine List.Nodup.map_on (fun route hroute route' hroute' hname => ?_)
    body.node.routes.sorted.nodup
  rw [h.rename_eq hroute, h.rename_eq hroute'] at hname
  exact body.node.routes.sorted.eq_of_key_eq hroute hroute'
    (hapart.eq_of_routeName_eq hbody hbody hroute hroute' hname).2

/-- The serializer writes the preimages, and digests are no longer than those of SHA-256. -/
structure NamesWritten (parent : CompiledGraph E) (calls : List (GraphSubgraphCall E)) : Prop where
  written : ∀ tree ∈ namePreimages parent calls, (E.toVec tree).isSome
  length_le : ∀ bytes, (E.sha256 bytes).bytes.length ≤ 32

theorem exists_lowerIdentity (hwritten : NamesWritten parent calls)
    (hbody : body ∈ bodyInstances calls) :
    ∃ source, lowerIdentity parent body.call body.node body.iteration body.ordinal =
      .ok (body.name parent, source) := by
  have hdigest : ∀ tree, (E.digestOf tree).bytes.length ≤ 32 := fun tree => hwritten.length_le _
  have hbytes : ∀ tree ∈ namePreimages parent calls, ∃ bytes, E.toVec tree = some bytes ∧
      E.sha256 bytes = E.digestOf tree := by
    intro tree htree
    obtain ⟨bytes, hbytes⟩ := Option.isSome_iff_exists.mp (hwritten.written tree htree)
    exact ⟨bytes, hbytes, by rw [Encoding.digestOf, hbytes, Option.getD_some]⟩
  obtain ⟨bytes, hscope, hsha⟩ := hbytes _ (scopeWire_mem_namePreimages hbody)
  have hname : NodeId.new (generatedText (E.sha256 bytes) body.ordinal) = .ok (body.name parent) := by
    rw [hsha]
    exact new_generatedText (hdigest _) (ordinal_lt_of_mem_bodyInstances hbody)
  have hroutes : ∀ route ∈ body.node.routes.routes,
      ∃ recorded, lowerRoute E (body.name parent) route = .ok recorded := by
    intro route hroute
    obtain ⟨bytes, hroute, hsha⟩ := hbytes _ (routeWire_mem_namePreimages hbody hroute)
    simp only [lowerRoute, bind_eq_ok, okOr_eq_ok, mapError_eq_ok]
    exact ⟨_, bytes, hroute, _, hsha ▸ new_routeText (hdigest _), rfl⟩
  obtain ⟨routes, hroutes⟩ := exists_forall₂ hroutes
  simp only [lowerIdentity, bind_eq_ok, okOr_eq_ok, mapError_eq_ok, mapM_eq_ok]
  exact ⟨_, bytes, hscope, _, hname, routes, hroutes, rfl⟩

/-- All identities are generated: none repeats and none is the parent's. -/
theorem exists_lowerInstances (hwritten : NamesWritten parent calls)
    (hapart : NamesApart parent calls) (hids : (calls.map GraphSubgraphCall.nodeId).Nodup) :
    ∃ lowered, lowerInstances parent [] (bodyInstances calls) = .ok lowered := by
  -- The induction is on the bodies still to lower, whose names are not taken yet.
  have hgeneral : ∀ (rest : List (BodyInstance E)) (before : List LoweredNode),
      (∀ body ∈ rest, body ∈ bodyInstances calls) →
      (before.map LoweredNode.generated ++ rest.map (·.name parent)).Nodup →
      ∃ out, lowerInstances parent before rest = .ok out := by
    intro rest
    induction rest with
    | nil => exact fun before _ _ => ⟨before, rfl⟩
    | cons body rest ih =>
      intro before hrest hnodup
      have hbody := hrest body List.mem_cons_self
      obtain ⟨source, hidentity⟩ := exists_lowerIdentity hwritten hbody
      have hunused : body.name parent ∉ before.map LoweredNode.generated := fun hmem =>
        (List.nodup_append.mp hnodup).2.2 _ hmem _ List.mem_cons_self rfl
      obtain ⟨out, hout⟩ := ih (before ++ [⟨body.node, body.name parent, source⟩])
        (fun other hother => hrest other (List.mem_cons_of_mem _ hother))
        (by simpa using hnodup)
      refine ⟨out, ?_⟩
      simp only [lowerInstances, bind_eq_ok, reject_eq_ok, not_or, CompiledGraph.node_isSome]
      exact ⟨_, hidentity, (), ⟨hapart.nodes_fresh body hbody, hunused⟩, hout⟩
  refine hgeneral _ [] (fun _ hbody => hbody) ?_
  exact (nodup_origins_bodyInstances hids).of_map.map_on
    (fun body hbody body' hbody' hname => hapart.eq_of_name_eq hids hbody hbody' hname)

section Sets

variable {origin : Origin} {node : GraphNode} {target : NodeId → Origin → Prop}

theorem Lowering.exists_name (h : Lowering parent calls lowered)
    (hunrolls : Unrolls parent calls origin node target) : ∃ name, Names lowered origin name := by
  cases hunrolls with
  | parent => exact ⟨_, rfl⟩
  | copy hcall _ _ hiteration hnode hbody =>
    obtain ⟨entry, hentry, _, hlowers⟩ := h.exists_entry hcall hiteration hnode hbody
    exact ⟨_, entry, hentry, hlowers.origin_eq, rfl⟩

theorem Unrolls.mem_expandedIds (h : Unrolls parent calls origin node target) {name : NodeId}
    (hname : Names lowered origin name) : name ∈ expandedIds parent calls lowered := by
  cases h with
  | parent hnode hplain =>
    obtain rfl : name = node.nodeId := hname
    exact List.mem_append_left _
      (List.mem_filter.mpr ⟨List.mem_map_of_mem hnode, by simpa using hplain⟩)
  | copy =>
    obtain ⟨entry, hentry, _, rfl⟩ := hname
    exact List.mem_append_right _ (List.mem_map_of_mem hentry)

/-- Every successor in the source of a node leads somewhere. -/
theorem Unrolls.exists_target (hvalid : ValidCalls parent calls)
    (h : Unrolls parent calls origin node target) {next : NodeId} (hnext : next ∈ node.successors) :
    ∃ origin', target next origin' := by
  cases h with
  | parent hnode =>
    obtain ⟨source, hsource, rfl⟩ := List.mem_map.mp
      (parent.wellShaped.closed.successors_mem node hnode next hnext)
    obtain ⟨origin', horigin', _⟩ := exists_parent_boundary hvalid hsource
    exact ⟨origin', horigin'⟩
  | @copy call site _ iteration hcall hmem hid _ hnode hbody =>
    by_cases hport : next ∈ call.subgraph.ports
    · obtain ⟨origin', horigin', _⟩ := exists_port_boundary hvalid (hvalid.callSite hcall hmem hid)
        (fun hagain entry hentry => by
          obtain ⟨first, hfirst, rfl⟩ := List.mem_map.mp
            (call.subgraph.graph.wellShaped.closed.entry_mem entry hentry)
          exact unrolled_boundary hvalid
            (.copy hcall hmem hid hagain hfirst (call.subgraph.entry_not_port _ hentry))) hport
      exact ⟨origin', horigin'⟩
    · exact ⟨_, .body hport⟩

/-- A set of identities of the expansion is not too large. -/
theorem Lowering.exists_ready (h : Lowering parent calls lowered) (names : List NodeId)
    (hnames : ∀ name ∈ names, name ∈ expandedIds parent calls lowered) :
    ∃ out, ready names = .ok out := by
  have hnodup : (toOrderedSet names).Nodup := (strictlySorted_toOrderedSet names).nodup
  have hbounded : (toOrderedSet names).length ≤ ReadyNodes.maxLen := by
    have hsub : toOrderedSet names ⊆ expandedIds parent calls lowered :=
      fun name hname => hnames name (mem_toOrderedSet.mp hname)
    refine (hnodup.subperm hsub).length_le.trans ?_
    rw [h.length_expandedIds]
    exact h.valid.count
  simp only [ready, bind_eq_ok, reject_eq_ok, mapError_eq_ok, ReadyNodes.tryNew_eq_ok]
  exact ⟨⟨_, strictlySorted_sortByKey (by simpa using hnodup), by simpa using hbounded⟩, (),
    not_lt.mpr hbounded, hnodup, hbounded, rfl⟩

/-- Each successor set of a node leads to nodes of the expansion, at least to one. -/
theorem Lowering.exists_redirected (h : Lowering parent calls lowered)
    (hunrolls : Unrolls parent calls origin node target)
    {redirect : NodeId → List NodeId}
    (hredirect : ∀ next name, name ∈ redirect next ↔ Through lowered target next name) :
    ∀ set ∈ node.successorSets, ∃ out, ready (set.nodes.flatMap redirect) = .ok out ∧
      out.nodes ≠ [] := by
  intro set hset
  have hstep : ∀ next ∈ set, ∀ origin', target next origin' →
      ∃ node' target', Unrolls parent calls origin' node' target' :=
    fun next hnext origin' htarget => UnrolledStep.exists_unrolls h.valid
      ⟨node, target, hunrolls, next, GraphNode.mem_successors.mpr ⟨set, hset, hnext⟩, htarget⟩
  obtain ⟨out, hout⟩ := h.exists_ready (set.nodes.flatMap redirect)
    (fun name hname => by
      obtain ⟨next, hnext, hname⟩ := List.mem_flatMap.mp hname
      obtain ⟨origin', htarget, hname⟩ := (hredirect next name).mp hname
      obtain ⟨_, _, hunrolls'⟩ := hstep next hnext origin' htarget
      exact hunrolls'.mem_expandedIds hname)
  obtain ⟨next, hnext⟩ := List.exists_mem_of_ne_nil _ (GraphNode.successorSets_nonempty hset)
  obtain ⟨origin', htarget⟩ :=
    hunrolls.exists_target h.valid (GraphNode.mem_successors.mpr ⟨set, hset, hnext⟩)
  obtain ⟨_, _, hunrolls'⟩ := hstep next hnext origin' htarget
  obtain ⟨name, hname⟩ := h.exists_name hunrolls'
  refine ⟨out, hout, List.ne_nil_of_mem (a := name) ?_⟩
  rw [← ReadyNodes.mem_def, mem_of_ready_eq_ok hout]
  exact List.mem_flatMap.mpr ⟨next, hnext, (hredirect next name).mpr ⟨origin', htarget, hname⟩⟩

end Sets

/-- Calls that pass validation expand, if their names are written and apart. -/
theorem exists_expand (hvalid : ValidCalls parent calls) (hwritten : NamesWritten parent calls)
    (hapart : NamesApart parent calls) : ∃ expansion, expand parent calls = .ok expansion := by
  have hids := hvalid.ids_nodup
  obtain ⟨lowered, hlower⟩ := exists_lowerInstances hwritten hapart hids
  have hlowering := lowering_of_lowerInstances hvalid hlower
  obtain ⟨entries, hinstances⟩ : ∃ entries, instanceEntries lowered calls = .ok entries := by
    simp only [instanceEntries, mapM_eq_ok]
    refine exists_forall₂ fun turn _ => ?_
    obtain ⟨out, hout⟩ := hlowering.exists_ready
      (turn.1.subgraph.graph.entryNodes.nodes.flatMap
        (fun nodeId => (generatedFor lowered turn.1.nodeId turn.2 nodeId).toList)) (fun name hname => by
        obtain ⟨entry, _, hname⟩ := List.mem_flatMap.mp hname
        obtain ⟨copy, hcopy, _, rfl⟩ :=
          (generatedFor_eq_some hlowering).mp (Option.mem_toList.mp hname)
        exact List.mem_append_right _ (List.mem_map_of_mem hcopy))
    exact ⟨_, bind_eq_ok.mpr ⟨out, hout, rfl⟩⟩
  have hentries := entriesOf_of_instanceEntries hlowering hinstances
  obtain ⟨outs, houts⟩ : ∃ outs, parent.nodes.mapM (expandNode lowered entries calls) = .ok outs := by
    simp only [mapM_eq_ok]
    refine exists_forall₂ fun node hnode => ?_
    by_cases hplain : node.nodeId ∈ calls.map GraphSubgraphCall.nodeId
    · obtain ⟨call, hcall, hid⟩ := List.mem_map.mp hplain
      simp only [expandNode_call hids hcall hid, mapM_eq_ok]
      refine exists_forall₂ fun entry hentry => ?_
      obtain ⟨hmem, hcallSite⟩ := List.mem_filter.mp hentry
      obtain ⟨body, hbody, hlowers⟩ := hlowering.exists_body hmem
      obtain ⟨hbodyCall, hiteration, hordinal⟩ := mem_bodyInstances.mp hbody
      have horigin := Origin.copy.inj hlowers.origin_eq
      have hsame : body.call = call := List.inj_on_of_nodup_map hids hbodyCall hcall
        (horigin.1.symm.trans ((of_decide_eq_true hcallSite).trans hid.symm))
      obtain ⟨hsource, hport⟩ := SharedStateSubgraph.mem_nodes_of_mem_bodyNodes hordinal
      rw [hsame] at hiteration hsource hport
      rw [hlowers.node_eq, horigin.2.1]
      exact exists_remapNode _ (hlowering.exists_redirected
        (.copy hcall hnode hid.symm hiteration hsource hport)
        fun next name => mem_redirectChild hlowering hentries hcall)
        (hlowers.renamed_nodup hbody hapart) _
    · have hnone : calls.find? (·.nodeId = node.nodeId) = none := by
        rw [List.find?_eq_none]
        exact fun call hcall hid => hplain (List.mem_map.mpr ⟨call, hcall, by simpa using hid⟩)
      obtain ⟨node', hnode'⟩ := exists_remapNode id (hlowering.exists_redirected
        (.parent hnode hplain) fun next name => mem_redirectParent hentries)
        node.routes.sorted.nodup_keys node.nodeId
      rw [expandNode, hnone]
      exact ⟨[node'], bind_eq_ok.mpr ⟨node', hnode', rfl⟩⟩
  obtain ⟨entryNodes, hready⟩ := hlowering.exists_ready
    (parent.entryNodes.nodes.flatMap (redirectParent entries)) (fun name hname => by
      obtain ⟨entry, hentry, hname⟩ := List.mem_flatMap.mp hname
      obtain ⟨origin, horigin, hname⟩ := (mem_redirectParent hentries).mp hname
      obtain ⟨_, _, hunrolls⟩ := horigin.exists_unrolls hvalid
        (parent.wellShaped.closed.entry_mem entry hentry)
      exact hunrolls.mem_expandedIds hname)
  simp only [expand, bind_eq_ok]
  exact ⟨_, lowered, hlower, entries, hinstances, outs, houts, entryNodes, hready, rfl⟩

/-! ## Soundness -/

/-- The definition that the final compilation receives. -/
def expandedDefinition (parent : CompiledGraph E) (expansion : Expansion) : GraphDefinition :=
  { parent.toGraphDefinition with
    entryNodes := expansion.entryNodes
    nodes := expansion.nodes
    childRuns := none }

/-- Calls that pass validation expand, unless a generated identity collides or is not written.
The final compilation rejects the expansion only for a shared route, its parallelism or its
encoded size; without collisions and with a definition that fits, only for its parallelism.
Every body node of every iteration has a copy, which is reached from the expanded entries and
reaches a boundary. -/
theorem composition_sound {parent : CompiledGraph E} {calls byId : List (GraphSubgraphCall E)}
    (hcalls : collectCalls parent calls = .ok byId) :
    (NamesWritten parent byId → NamesApart parent byId →
      ∃ expansion, expand parent byId = .ok expansion) ∧
    ∀ expansion, expand parent byId = .ok expansion →
      (∀ error, compileExpansion parent expansion = .error error →
        CompiledGraph.SizeRejection E (expandedDefinition parent expansion) error) ∧
      (NamesApart parent byId →
        (∃ canonical, E.toVec (CompiledGraph.normalized
            (expandedDefinition parent expansion)).toJson = some canonical ∧
          canonical.length ≤ CompiledGraph.maxDefinitionBytes) →
        ∀ error, compileExpansion parent expansion = .error error → ∃ nodeId actual,
          error = .parallelismExceeded nodeId parent.limits.maximumParallelism actual) ∧
      Connected expansion.nodes expansion.entryNodes ∧
      ∀ call ∈ calls, ∀ iteration < call.maximumIterations,
        ∀ node ∈ call.subgraph.graph.nodes, node.nodeId ∉ call.subgraph.ports →
          ∃ copy ∈ expansion.nodes,
            Names expansion.lowered (.copy call.nodeId iteration node.nodeId) copy.nodeId ∧
            (∃ entry ∈ expansion.entryNodes,
              Reaches (successorsOf expansion.nodes) entry copy.nodeId) ∧
            ∃ last ∈ expansion.nodes, last.isBoundary = true ∧
              Reaches (successorsOf expansion.nodes) copy.nodeId last.nodeId := by
  obtain ⟨hvalid, hperm⟩ := validCalls_of_collectCalls hcalls
  refine ⟨exists_expand hvalid, fun expansion hexpand => ?_⟩
  have hexpansion := expansionOf_of_expand hvalid hexpand
  have hconnected := hexpansion.connected
  have hreject : ∀ error, compileExpansion parent expansion = .error error →
      CompiledGraph.SizeRejection E (expandedDefinition parent expansion) error := by
    intro error herror
    exact CompiledGraph.sizeRejection_of_build rfl hexpansion.nodes_nonempty
      hexpansion.length_le hexpansion.ids_nodup hexpansion.entry_nonempty hexpansion.closed
      hconnected herror
  refine ⟨hreject, ?_, hconnected, ?_⟩
  · intro hapart ⟨canonical, hcanonical, hsize⟩ error herror
    cases hreject error herror with
    | route hshared => exact absurd (hexpansion.routes_nodup hapart) hshared
    | parallelism => exact ⟨_, _, rfl⟩
    | encoding hnone =>
      rw [hcanonical] at hnone
      cases hnone
    | bytes hsome hlarge =>
      rw [hcanonical] at hsome
      cases hsome
      omega
  · intro call hcall iteration hiteration node hnode hbody
    have hmem : call ∈ byId := hperm.mem_iff.mpr hcall
    obtain ⟨site, hsite⟩ := hvalid.exists_callSite hmem
    obtain ⟨copy, hcopy, hrealises⟩ := hexpansion.complete
      (.copy hmem hsite.mem hsite.nodeId_eq hiteration hnode hbody)
    exact ⟨copy, hcopy, hrealises.name, hconnected.reachable copy hcopy,
      hconnected.boundary copy hcopy⟩

namespace Sample

/-- A router: one route to `target` for each name. -/
def router (nodeId : NodeId) (routes : List (String × List NodeId)) : Option GraphNode := do
  let routes ← routes.mapM (fun route => do
    let successors ← (ReadyNodes.tryNew route.2).toOption
    (GraphRoute.new ⟨route.1⟩ successors).toOption)
  let routes ← (GraphRoutes.tryNew routes).toOption
  (GraphNode.new nodeId none routes none false).toOption

def terminal (nodeId : NodeId) : Option GraphNode :=
  (GraphNode.new nodeId none .empty none true).toOption

/-- A template whose body `work` has the given routes to the ports `done` and `again`. -/
def template (routes : List (String × List NodeId)) : Option (SharedStateSubgraph .compact) := do
  let work ← router ⟨"work"⟩ routes
  let done ← terminal ⟨"done"⟩
  let again ← terminal ⟨"again"⟩
  let graph ← compile [⟨"work"⟩] [work, done, again] 2
  (SharedStateSubgraph.new graph).toOption

/-- A parent that calls the template in a loop of two iterations. -/
def loopCall (routes : List (String × List NodeId)) :
    Option (CompiledGraph .compact × GraphSubgraphCall .compact) := do
  let subgraph ← template routes
  let call ← router ⟨"call"⟩ [("done", [⟨"end"⟩]), ("again", [⟨"end"⟩])]
  let last ← terminal ⟨"end"⟩
  let parent ← compile [⟨"call"⟩] [call, last] 1
  let call ← (GraphSubgraphCall.boundedLoop ⟨"call"⟩ subgraph ⟨"again"⟩ 2).toOption
  return (parent, call)

/-- The body returns or asks for another round. -/
def choice : List (String × List NodeId) := [("ok", [⟨"done"⟩]), ("more", [⟨"again"⟩])]

/-- The body does both at once. -/
def fork : List (String × List NodeId) := [("both", [⟨"done"⟩, ⟨"again"⟩])]

end Sample

theorem namesWritten_compact {parent : CompiledGraph .compact}
    {calls : List (GraphSubgraphCall .compact)} : NamesWritten parent calls :=
  ⟨fun _ _ => rfl, fun _ => by simp [Encoding.compact]⟩

/-- Two iterations of a call in a loop: the expansion has three nodes with four routes and
compiles.  Where the body returns and asks for another round at once, its first iteration leads
to two nodes, and a parent with a parallelism of one rejects just that. -/
theorem composition_sound_loop :
    (∃ (parent : CompiledGraph .compact) (call : GraphSubgraphCall .compact)
      (byId : List (GraphSubgraphCall .compact)) (expansion : Expansion)
      (graph : CompiledGraph .compact), collectCalls parent [call] = .ok byId ∧
      NamesApart parent byId ∧ expand parent byId = .ok expansion ∧ expansion.nodes.length = 3 ∧
      Connected expansion.nodes expansion.entryNodes ∧ (routeIds expansion.nodes).Nodup ∧
      (routeIds expansion.nodes).length = 4 ∧ compileExpansion parent expansion = .ok graph) ∧
    ∃ (parent : CompiledGraph .compact) (call : GraphSubgraphCall .compact)
      (byId : List (GraphSubgraphCall .compact)) (expansion : Expansion)
      (error : GraphCompileError), collectCalls parent [call] = .ok byId ∧
      NamesApart parent byId ∧ expand parent byId = .ok expansion ∧
      compileExpansion parent expansion = .error error ∧
      ∃ nodeId actual, error = .parallelismExceeded nodeId 1 actual := by
  constructor
  · have hsome : (Sample.loopCall Sample.choice).any (fun sample =>
        (collectCalls sample.1 [sample.2]).toOption.any fun byId =>
          NamesApart sample.1 byId ∧ (expand sample.1 byId).toOption.any fun expansion =>
            expansion.nodes.length = 3 ∧ (routeIds expansion.nodes).Nodup ∧
            (routeIds expansion.nodes).length = 4 ∧
            (compileExpansion sample.1 expansion).toOption.isSome) = true := by
      decide +kernel
    obtain ⟨⟨parent, call⟩, _, hsample⟩ := (Option.any_eq_true _ _).mp hsome
    obtain ⟨byId, hcalls, hsample⟩ := (Option.any_eq_true _ _).mp hsample
    obtain ⟨hapart, hsample⟩ := of_decide_eq_true hsample
    obtain ⟨expansion, hexpand, hsample⟩ := (Option.any_eq_true _ _).mp hsample
    obtain ⟨hlength, hroutes, hrouteCount, hcompile⟩ := of_decide_eq_true hsample
    obtain ⟨graph, hgraph⟩ := Option.isSome_iff_exists.mp hcompile
    rw [toOption_eq_some] at hcalls hexpand hgraph
    exact ⟨parent, call, byId, expansion, graph, hcalls, hapart, hexpand, hlength,
      ((composition_sound hcalls).2 expansion hexpand).2.2.1, hroutes, hrouteCount, hgraph⟩
  · have hsome : (Sample.loopCall Sample.fork).any (fun sample =>
        (collectCalls sample.1 [sample.2]).toOption.any fun byId =>
          NamesApart sample.1 byId ∧ sample.1.limits.maximumParallelism = 1 ∧
          ∀ expansion ∈ (expand sample.1 byId).toOption,
            (compileExpansion sample.1 expansion).toOption = none ∧
            ((Encoding.compact.toVec (CompiledGraph.normalized
              (expandedDefinition sample.1 expansion)).toJson).any fun canonical =>
                canonical.length ≤ CompiledGraph.maxDefinitionBytes)) = true := by
      decide +kernel
    obtain ⟨⟨parent, call⟩, _, hsample⟩ := (Option.any_eq_true _ _).mp hsome
    obtain ⟨byId, hcalls, hsample⟩ := (Option.any_eq_true _ _).mp hsample
    obtain ⟨hapart, hlimit, hsample⟩ := of_decide_eq_true hsample
    rw [toOption_eq_some] at hcalls
    obtain ⟨hexpands, hsound⟩ := composition_sound hcalls
    obtain ⟨expansion, hexpand⟩ := hexpands namesWritten_compact hapart
    obtain ⟨hrefused, hfits⟩ := hsample expansion (toOption_eq_some.mpr hexpand)
    obtain ⟨canonical, hcanonical, hsize⟩ := (Option.any_eq_true _ _).mp hfits
    cases hcompile : compileExpansion parent expansion with
    | ok graph => simp [hcompile, Except.toOption] at hrefused
    | error error =>
      obtain ⟨nodeId, actual, herror⟩ := (hsound expansion hexpand).2.1 hapart
        ⟨canonical, hcanonical, of_decide_eq_true hsize⟩ error hcompile
      exact ⟨parent, call, byId, expansion, error, hcalls, hapart, hexpand, hcompile, nodeId,
        actual, herror.trans (by rw [hlimit])⟩

end StateKnot
