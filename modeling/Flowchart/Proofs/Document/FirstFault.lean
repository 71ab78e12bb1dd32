import Flowchart.Proofs.Document.Opening

/-!
# What is wrong with a document

A document that is not opened is refused for one reason, even if there are several. First the
version is looked at, then the nodes in their order, and then the arrows in theirs, and the first
thing that is wrong is reported (`Flowchart.Document.FirstFault`). Of a node it is asked whether its
id is within range, and only then whether it has occurred before.

The ids are checked by going through them with those seen so far at hand. The check fails exactly if
some id has a fault behind others that pass (`Flowchart.Document.checkIds_eq_error_iff`), and what
it means to pass is known from `Flowchart.Document.checkIds_eq_ok_iff`. So every document is opened
or refused, and both are described without the checks
(`Flowchart.Document.toGraph_reports_first_fault`).
-/

namespace Flowchart.Document

variable {d : Document} {e : Error}

/-! ### Ids -/

/-- **What is wrong with an id** behind others: it is out of range, or it is one of them. -/
inductive IdFault (earlier : List NodeId) (id : NodeId) : Error → Prop where
  | range (hrange : maxNodeId < id) : IdFault earlier id (.nodeIdOutOfRange id)
  | again (hrange : id ≤ maxNodeId) (hmem : id ∈ earlier) : IdFault earlier id (.duplicateNodeId id)

/-- In which order the earlier ids come does not count. -/
theorem idFault_congr {earlier other : List NodeId} {id : NodeId}
    (h : id ∈ earlier ↔ id ∈ other) : IdFault earlier id e ↔ IdFault other id e := by
  constructor
  · rintro (hrange | ⟨hrange, hmem⟩)
    · exact .range hrange
    · exact .again hrange (h.mp hmem)
  · rintro (hrange | ⟨hrange, hmem⟩)
    · exact .range hrange
    · exact .again hrange (h.mpr hmem)

/-- An id with a fault ends the check. -/
theorem checkIds_cons_of_idFault {seen ids : List NodeId} {id : NodeId} (h : IdFault seen id e) :
    checkIds seen (id :: ids) = .error e := by
  rw [checkIds]
  cases h with
  | range hrange => rw [if_pos hrange]
  | again hrange hmem => rw [if_neg (UInt64.not_lt.mpr hrange), if_pos hmem]

theorem checkIds_cons_of_not_idFault {seen ids : List NodeId} {id : NodeId}
    (h : ∀ e, ¬ IdFault seen id e) : checkIds seen (id :: ids) = checkIds (id :: seen) ids := by
  have hrange : ¬ maxNodeId < id := fun hlt => h _ (.range hlt)
  have hmem : id ∉ seen := fun hmem => h _ (.again (UInt64.not_lt.mp hrange) hmem)
  rw [checkIds, if_neg hrange, if_neg hmem]

theorem not_idFault_of_checkIds {seen ids : List NodeId} {id : NodeId}
    (h : checkIds seen (id :: ids) = .ok ()) : ∀ e, ¬ IdFault seen id e := by
  intro e hid
  rw [checkIds_cons_of_idFault hid] at h
  exact nomatch h

/-- An id that was passed over counts as one of those before. -/
theorem idFault_cons_append_iff {seen before : List NodeId} {id x : NodeId} :
    IdFault (x :: seen ++ before) id e ↔ IdFault (seen ++ x :: before) id e :=
  idFault_congr (by simp [or_left_comm])

/-- An id with a fault, behind others that pass, is reported. -/
theorem checkIds_append_of_idFault {seen before behind : List NodeId} {id : NodeId}
    (hbefore : checkIds seen before = .ok ()) (hid : IdFault (seen ++ before) id e) :
    checkIds seen (before ++ id :: behind) = .error e := by
  induction before generalizing seen with
  | nil =>
    rw [List.append_nil] at hid
    exact checkIds_cons_of_idFault hid
  | cons x before ih =>
    have hx := not_idFault_of_checkIds hbefore
    rw [checkIds_cons_of_not_idFault hx] at hbefore
    rw [List.cons_append, checkIds_cons_of_not_idFault hx]
    exact ih hbefore (idFault_cons_append_iff.mpr hid)

/-- What is reported is the fault of an id behind others that pass. -/
theorem exists_idFault_of_checkIds {seen ids : List NodeId} (h : checkIds seen ids = .error e) :
    ∃ before id behind, ids = before ++ id :: behind ∧ checkIds seen before = .ok () ∧
      IdFault (seen ++ before) id e := by
  induction ids generalizing seen with
  | nil => exact nomatch h
  | cons x xs ih =>
    by_cases hx : ∃ e', IdFault seen x e'
    · obtain ⟨e', hx⟩ := hx
      rw [checkIds_cons_of_idFault hx] at h
      obtain rfl := Except.error.inj h
      exact ⟨[], x, xs, rfl, rfl, by rwa [List.append_nil]⟩
    · rw [not_exists] at hx
      rw [checkIds_cons_of_not_idFault hx] at h
      obtain ⟨before, id, behind, rfl, hbefore, hid⟩ := ih h
      exact ⟨x :: before, id, behind, rfl, checkIds_cons_of_not_idFault hx ▸ hbefore,
        idFault_cons_append_iff.mp hid⟩

/-- **Ids do not pass** exactly if one of them has a fault, behind others that are within range and
pairwise distinct. -/
theorem checkIds_eq_error_iff {ids : List NodeId} :
    checkIds [] ids = .error e ↔ ∃ before id behind, ids = before ++ id :: behind ∧
      (∀ earlier ∈ before, earlier ≤ maxNodeId) ∧ before.Nodup ∧ IdFault before id e := by
  constructor
  · intro h
    obtain ⟨before, id, behind, hsplit, hbefore, hid⟩ := exists_idFault_of_checkIds h
    obtain ⟨hrange, hnodup, -⟩ := checkIds_eq_ok_iff.mp hbefore
    exact ⟨before, id, behind, hsplit, hrange, hnodup, hid⟩
  · rintro ⟨before, id, behind, rfl, hrange, hnodup, hid⟩
    have hbefore : checkIds [] before = .ok () :=
      checkIds_eq_ok_iff.mpr ⟨hrange, hnodup, fun _ _ => List.not_mem_nil⟩
    exact checkIds_append_of_idFault hbefore hid

/-! ### Arrows -/

/-- **Arrows do not pass** exactly if one of them has an end elsewhere, behind others that have
none. -/
theorem checkEdges_eq_error_iff {ids : List NodeId} {edges : List Edge} :
    checkEdges ids edges = .error e ↔ ∃ before edge behind, edges = before ++ edge :: behind ∧
      (∀ earlier ∈ before, earlier.source ∈ ids ∧ earlier.target ∈ ids) ∧
      ¬ (edge.source ∈ ids ∧ edge.target ∈ ids) ∧ e = .danglingEdge edge.source edge.target := by
  rw [checkEdges]
  constructor
  · intro h
    split at h
    · next edge hfound =>
      obtain rfl := Except.error.inj h
      obtain ⟨hends, before, behind, rfl, hbefore⟩ := List.find?_eq_some_iff_append.mp hfound
      exact ⟨before, edge, behind, rfl, by simpa using hbefore,
        not_and_or.mpr (by simpa using hends), rfl⟩
    · cases h
  · rintro ⟨before, edge, behind, rfl, hbefore, hends, rfl⟩
    rw [List.find?_eq_some_iff_append.mpr
      ⟨by simpa using not_and_or.mp hends, before, behind, rfl, by simpa using hbefore⟩]

/-! ### Documents -/

/-- **The first thing that is wrong with a document.** -/
inductive FirstFault (d : Document) : Error → Prop where
  /-- The version is another one. -/
  | version (hversion : d.version ≠ currentVersion) : FirstFault d (.unsupportedVersion d.version)
  /-- An id is out of range, and the ids before it are not, nor is one of them used twice. -/
  | range {before behind : List Node} {node : Node} (hversion : d.version = currentVersion)
      (hsplit : d.nodes = before ++ node :: behind)
      (hbefore : ∀ earlier ∈ before, earlier.id ≤ maxNodeId)
      (hdistinct : (before.map Node.id).Nodup) (hrange : maxNodeId < node.id) :
      FirstFault d (.nodeIdOutOfRange node.id)
  /-- An id within range has occurred before, and so far all ids were within range and distinct. -/
  | again {before behind : List Node} {node : Node} (hversion : d.version = currentVersion)
      (hsplit : d.nodes = before ++ node :: behind)
      (hbefore : ∀ earlier ∈ before, earlier.id ≤ maxNodeId)
      (hdistinct : (before.map Node.id).Nodup) (hrange : node.id ≤ maxNodeId)
      (hmem : ∃ earlier ∈ before, earlier.id = node.id) :
      FirstFault d (.duplicateNodeId node.id)
  /-- The ids are all right, and an arrow has an end that is no node, but no arrow before it has. -/
  | dangling {before behind : List Edge} {edge : Edge} (hversion : d.version = currentVersion)
      (hnodes : ∀ node ∈ d.nodes, node.id ≤ maxNodeId) (hdistinct : (d.nodes.map Node.id).Nodup)
      (hsplit : d.edges = before ++ edge :: behind)
      (hbefore : ∀ earlier ∈ before,
        earlier.source ∈ d.nodes.map Node.id ∧ earlier.target ∈ d.nodes.map Node.id)
      (hends : ¬ (edge.source ∈ d.nodes.map Node.id ∧ edge.target ∈ d.nodes.map Node.id)) :
      FirstFault d (.danglingEdge edge.source edge.target)

/-- A document is refused by the first check that fails. -/
theorem toGraph_eq_error_iff_checks :
    d.toGraph = .error e ↔
      (d.version ≠ currentVersion ∧ e = .unsupportedVersion d.version) ∨
      (d.version = currentVersion ∧ checkIds [] (d.nodes.map Node.id) = .error e) ∨
      (d.version = currentVersion ∧ checkIds [] (d.nodes.map Node.id) = .ok () ∧
        checkEdges (d.nodes.map Node.id) d.edges = .error e) := by
  rw [toGraph]
  by_cases hversion : d.version = currentVersion
  · simp only [hversion, ne_eq, not_true_eq_false, if_false, bind_eq_error_iff, false_and, true_and,
      false_or]
    constructor
    · rintro (hids | ⟨_, hids, hedges | ⟨_, -, hreturn⟩⟩)
      · exact .inl hids
      · exact .inr ⟨hids, hedges⟩
      · cases hreturn
    · rintro (hids | ⟨hids, hedges⟩)
      · exact .inl hids
      · exact .inr ⟨(), hids, .inl hedges⟩
  · simp [hversion, throw, throwThe, MonadExceptOf.throw, bind, Except.bind, eq_comm]

/-- **A document is refused for the first thing that is wrong with it.** -/
theorem toGraph_eq_error_iff : d.toGraph = .error e ↔ d.FirstFault e := by
  rw [toGraph_eq_error_iff_checks]
  constructor
  · rintro (⟨hversion, rfl⟩ | ⟨hversion, hids⟩ | ⟨hversion, hids, hedges⟩)
    · exact .version hversion
    · obtain ⟨before, id, behind, hsplit, hbefore, hdistinct, hid⟩ := checkIds_eq_error_iff.mp hids
      obtain ⟨before, rest, hnodes, rfl, hrest⟩ := List.map_eq_append_iff.mp hsplit
      obtain ⟨node, behind, rfl, rfl, rfl⟩ := List.map_eq_cons_iff.mp hrest
      have hbefore := List.forall_mem_map.mp hbefore
      cases hid with
      | range hrange => exact .range hversion hnodes hbefore hdistinct hrange
      | again hrange hmem =>
        exact .again hversion hnodes hbefore hdistinct hrange (List.mem_map.mp hmem)
    · obtain ⟨hrange, hdistinct, -⟩ := checkIds_eq_ok_iff.mp hids
      obtain ⟨before, edge, behind, hsplit, hbefore, hends, rfl⟩ :=
        checkEdges_eq_error_iff.mp hedges
      exact .dangling hversion (List.forall_mem_map.mp hrange) hdistinct hsplit hbefore hends
  · intro hfault
    have hsplitIds : ∀ {before behind : List Node} {node : Node},
        d.nodes = before ++ node :: behind →
          d.nodes.map Node.id = before.map Node.id ++ node.id :: behind.map Node.id := by
      intro before behind node hsplit
      rw [hsplit, List.map_append, List.map_cons]
    cases hfault with
    | version hversion => exact .inl ⟨hversion, rfl⟩
    | range hversion hsplit hbefore hdistinct hrange =>
      exact .inr (.inl ⟨hversion, checkIds_eq_error_iff.mpr
        ⟨_, _, _, hsplitIds hsplit, List.forall_mem_map.mpr hbefore, hdistinct, .range hrange⟩⟩)
    | again hversion hsplit hbefore hdistinct hrange hmem =>
      exact .inr (.inl ⟨hversion, checkIds_eq_error_iff.mpr
        ⟨_, _, _, hsplitIds hsplit, List.forall_mem_map.mpr hbefore, hdistinct,
          .again hrange (List.mem_map.mpr hmem)⟩⟩)
    | dangling hversion hnodes hdistinct hsplit hbefore hends =>
      refine .inr (.inr ⟨hversion, checkIds_eq_ok_iff.mpr ?_, checkEdges_eq_error_iff.mpr ?_⟩)
      · exact ⟨List.forall_mem_map.mpr hnodes, hdistinct, fun _ _ => List.not_mem_nil⟩
      · exact ⟨_, _, _, hsplit, hbefore, hends, rfl⟩

/-- **Documents are checked exactly.** A document is opened if and only if it has the current
version, its ids are within range and pairwise distinct, and both ends of every arrow are nodes of
it. The graph then has the nodes and the arrows of the document, as they are and in their order, and
its next id is above all others. A document that is not opened is refused for the first thing that
is wrong with it. -/
theorem toGraph_reports_first_fault (d : Document) :
    ((∃ g, d.toGraph = .ok g) ↔ d.version = currentVersion ∧
      (∀ node ∈ d.nodes, node.id ≤ maxNodeId) ∧ (d.nodes.map Node.id).Nodup ∧
      ∀ edge ∈ d.edges,
        (∃ node ∈ d.nodes, node.id = edge.source) ∧ ∃ node ∈ d.nodes, node.id = edge.target) ∧
    (∀ g, d.toGraph = .ok g →
      g.nodes = d.nodes ∧ g.edges = d.edges ∧ ∀ node ∈ d.nodes, node.id < g.nextId) ∧
    ∀ e, d.toGraph = .error e ↔ d.FirstFault e := by
  refine ⟨?_, fun g h => ?_, fun e => toGraph_eq_error_iff⟩
  · simp only [toGraph_eq_ok_iff, List.forall_mem_map, exists_and_left, exists_eq, and_true]
    simp only [List.mem_map]
  · have hfresh := (isSound_of_toGraph h).1.fresh
    obtain ⟨-, -, -, -, rfl⟩ := toGraph_eq_ok_iff.mp h
    refine ⟨rfl, rfl, fun node hnode => UInt64.lt_iff_toNat_lt.mpr ?_⟩
    exact hfresh node.id (List.mem_map_of_mem hnode)

/-- Of two documents the first one is opened. The second one is refused for an id that is out of
range. Behind it an id is used twice, and an arrow leads to no node. -/
theorem toGraph_reports_first_fault_several :
    let node (id : NodeId) : Node := ⟨id, ⟨0, 0⟩, .circle, none, .none⟩
    let opened : Document := ⟨"1.0", [node 4, node 9007199254740991], [⟨4, 4, none⟩], none⟩
    let refused : Document := ⟨"1.0", [node 4, node 9007199254740992, node 4,
      node 9007199254740992], [⟨4, 7, none⟩, ⟨9007199254740992, 4, none⟩], none⟩
    let g : Graph := ⟨opened.nodes, opened.edges, 9007199254740992⟩
    opened.toGraph = .ok g ∧ (∀ node ∈ opened.nodes, node.id < g.nextId) ∧
      refused.toGraph = .error (.nodeIdOutOfRange 9007199254740992) ∧
      refused.FirstFault (.nodeIdOutOfRange 9007199254740992) := by
  intro node opened refused g
  have hopened : opened.toGraph = .ok g := by rfl
  have hrefused : refused.toGraph = .error (.nodeIdOutOfRange 9007199254740992) := by rfl
  exact ⟨hopened, ((toGraph_reports_first_fault opened).2.1 g hopened).2.2, hrefused,
    ((toGraph_reports_first_fault refused).2.2 _).mp hrefused⟩

end Flowchart.Document
