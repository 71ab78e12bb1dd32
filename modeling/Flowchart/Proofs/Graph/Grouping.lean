import Flowchart.Graph.Group
import Flowchart.Proofs.Graph.Soundness
import Flowchart.Proofs.Rows

/-!
# Groups divide the nodes

The nodes of a flowchart are put into buckets one after the other, and nothing is sorted afterwards.
What is true of the buckets in the end is true of them all the time, with respect to the nodes that
have been put there so far (`Flowchart.Bucket.Divide`):

* every node is in one bucket, once, and none of the buckets is empty;
* the nodes of a bucket have its key, and no two buckets have the same one;
* the nodes of a bucket are in the order in which they came, and so are the first nodes of the
  buckets.

Putting one more node there has two outcomes: it goes behind the nodes of the bucket with its key,
or it opens a new one behind the others (`Flowchart.Bucket.put_cases`). Either way all of this is
kept (`Flowchart.Bucket.Divide.put`). In the first case the order is kept because the new node comes
after all others and is the first one of no bucket; in the second case, because its bucket comes
after all others.

Groups show the ids of the nodes. As long as these are distinct, what is said about nodes can be
said about ids (`Flowchart.Graph.groups_divide_nodes`).
-/

namespace Flowchart

namespace Bucket

variable {key : Node → String} {nodes : List Node} {node : Node} {buckets : List Bucket}

/-! ### Putting a node into its bucket -/

/-- **Where a node is put**: behind the nodes of the bucket with its key, or into a new one behind
the others, which have other keys. -/
theorem put_cases (k : String) (node : Node) (buckets : List Bucket) :
    (∃ before bucket behind, buckets = before ++ bucket :: behind ∧ bucket.key = k ∧
      put k node buckets = before ++ ⟨k, bucket.members ++ [node]⟩ :: behind) ∨
    ((∀ bucket ∈ buckets, bucket.key ≠ k) ∧ put k node buckets = buckets ++ [⟨k, [node]⟩]) := by
  induction buckets with
  | nil => exact .inr ⟨fun _ h => absurd h List.not_mem_nil, rfl⟩
  | cons first rest ih =>
    rw [put]
    by_cases hfirst : first.key = k
    · subst hfirst
      rw [if_pos rfl]
      exact .inl ⟨[], first, rest, rfl, rfl, rfl⟩
    · rw [if_neg hfirst]
      rcases ih with ⟨before, bucket, behind, hrest, hkey, hput⟩ | ⟨hnone, hput⟩
      · exact .inl ⟨first :: before, bucket, behind, by rw [hrest]; rfl, hkey, by rw [hput]; rfl⟩
      · exact .inr ⟨List.forall_mem_cons.mpr ⟨hfirst, hnone⟩, by rw [hput]; rfl⟩

/-- **Buckets that divide nodes by their keys.** -/
structure Divide (key : Node → String) (nodes : List Node) (buckets : List Bucket) : Prop where
  /-- Every node is in one bucket, once. -/
  perm : (buckets.flatMap members).Perm nodes
  /-- No bucket is empty. -/
  ne_nil : ∀ bucket ∈ buckets, bucket.members ≠ []
  /-- The nodes of a bucket have its key. -/
  keyed : ∀ bucket ∈ buckets, ∀ node ∈ bucket.members, key node = bucket.key
  /-- No two buckets have the same key. -/
  distinct : (buckets.map Bucket.key).Nodup
  /-- The nodes of a bucket are in order. -/
  ordered : ∀ bucket ∈ buckets, bucket.members.Sublist nodes
  /-- The first nodes of the buckets are in order. -/
  firsts : (buckets.filterMap (·.members.head?)).Sublist nodes

theorem divide_nil (key : Node → String) : Divide key [] [] :=
  ⟨List.Perm.refl _, by simp, by simp, List.nodup_nil, by simp, List.Sublist.refl _⟩

/-- **A node behind the others of its bucket.** -/
theorem Divide.push {before behind : List Bucket} {bucket : Bucket}
    (h : Divide key nodes (before ++ bucket :: behind)) (hkey : bucket.key = key node) :
    Divide key (nodes ++ [node]) (before ++ ⟨key node, bucket.members ++ [node]⟩ :: behind) := by
  -- the bucket had a first node before, and it is still the first one
  have hhead : (bucket.members ++ [node]).head? = bucket.members.head? :=
    List.head?_append_of_ne_nil _ (h.ne_nil bucket (by simp))
  have hall : ∀ {P : Bucket → Prop}, (∀ b ∈ before ++ bucket :: behind, P b) →
      P ⟨key node, bucket.members ++ [node]⟩ →
        ∀ b ∈ before ++ ⟨key node, bucket.members ++ [node]⟩ :: behind, P b := by
    intro P hold hnew
    simp only [List.forall_mem_append, List.forall_mem_cons] at hold ⊢
    exact ⟨hold.1, hnew, hold.2.2⟩
  have hsub : nodes.Sublist (nodes ++ [node]) := List.sublist_append_left _ _
  refine ⟨?_, ?_, ?_, ?_, ?_, ?_⟩
  · refine List.Perm.trans ?_ (h.perm.append_right [node])
    simp only [List.flatMap_append, List.flatMap_cons, List.append_assoc]
    exact (List.perm_append_comm.append_left _).append_left _
  · exact hall h.ne_nil (List.append_ne_nil_of_right_ne_nil _ (List.cons_ne_nil _ _))
  · refine hall h.keyed fun other hother => ?_
    rcases List.mem_append.mp hother with hold | hnew
    · exact (h.keyed bucket (by simp) other hold).trans hkey
    · rw [List.mem_singleton.mp hnew]
  · have hkeys := h.distinct
    rw [List.map_append, List.map_cons, hkey] at hkeys
    rwa [List.map_append, List.map_cons]
  · refine hall (fun b hb => (h.ordered b hb).trans hsub) ?_
    exact (h.ordered bucket (by simp)).append (List.Sublist.refl _)
  · have hfirsts := h.firsts.trans hsub
    simp only [List.filterMap_append, List.filterMap_cons, hhead] at hfirsts ⊢
    exact hfirsts

/-- **A node in a bucket of its own.** -/
theorem Divide.open (h : Divide key nodes buckets)
    (hnone : ∀ bucket ∈ buckets, bucket.key ≠ key node) :
    Divide key (nodes ++ [node]) (buckets ++ [⟨key node, [node]⟩]) := by
  have hall : ∀ {P : Bucket → Prop}, (∀ b ∈ buckets, P b) → P ⟨key node, [node]⟩ →
      ∀ b ∈ buckets ++ [⟨key node, [node]⟩], P b := fun hold hnew =>
    List.forall_mem_append.mpr ⟨hold, List.forall_mem_singleton.mpr hnew⟩
  refine ⟨?_, ?_, ?_, ?_, ?_, ?_⟩
  · rw [List.flatMap_append]
    exact h.perm.append_right [node]
  · exact hall h.ne_nil (List.cons_ne_nil _ _)
  · exact hall h.keyed fun other hother => congrArg key (List.mem_singleton.mp hother)
  · -- the new key is none of those before, and the new bucket comes last
    rw [List.map_append, List.map_singleton, List.nodup_append]
    refine ⟨h.distinct, List.nodup_singleton _, ?_⟩
    intro k hk other hother heq
    obtain ⟨bucket, hbucket, rfl⟩ := List.mem_map.mp hk
    exact hnone bucket hbucket (heq.trans (List.mem_singleton.mp hother))
  · exact hall (fun b hb => (h.ordered b hb).trans (List.sublist_append_left _ _))
      (List.sublist_append_right _ _)
  · rw [List.filterMap_append]
    exact h.firsts.append (List.Sublist.refl _)

/-- **One more node.** -/
theorem Divide.put (h : Divide key nodes buckets) (node : Node) :
    Divide key (nodes ++ [node]) (Bucket.put (key node) node buckets) := by
  rcases put_cases (key node) node buckets with
    ⟨before, bucket, behind, rfl, hkey, hput⟩ | ⟨hnone, hput⟩
  · rw [hput]
    exact h.push hkey
  · rw [hput]
    exact h.open hnone

/-- **All nodes, one after the other.** -/
theorem Divide.foldl (h : Divide key nodes buckets) (later : List Node) :
    Divide key (nodes ++ later)
      (later.foldl (fun buckets node => Bucket.put (key node) node buckets) buckets) := by
  induction later generalizing nodes buckets with
  | nil => rwa [List.append_nil]
  | cons node later ih =>
    rw [List.append_cons]
    exact ih (h.put node)

/-! ### Nodes in the same bucket -/

theorem Divide.exists_mem (h : Divide key nodes buckets) (hnode : node ∈ nodes) :
    ∃ bucket ∈ buckets, node ∈ bucket.members :=
  List.mem_flatMap.mp (h.perm.mem_iff.mpr hnode)

/-- **Two nodes are in the same bucket** exactly if they have the same key. -/
theorem Divide.exists_both_iff (h : Divide key nodes buckets) {a b : Node} (ha : a ∈ nodes)
    (hb : b ∈ nodes) :
    (∃ bucket ∈ buckets, a ∈ bucket.members ∧ b ∈ bucket.members) ↔ key a = key b := by
  constructor
  · rintro ⟨bucket, hbucket, hamem, hbmem⟩
    exact (h.keyed bucket hbucket a hamem).trans (h.keyed bucket hbucket b hbmem).symm
  · intro hkeys
    obtain ⟨bucket, hbucket, hamem⟩ := h.exists_mem ha
    obtain ⟨other, hother, hbmem⟩ := h.exists_mem hb
    have hsame : bucket.key = other.key := by
      rw [← h.keyed bucket hbucket a hamem, ← h.keyed other hother b hbmem, hkeys]
    obtain rfl := List.inj_on_of_nodup_map h.distinct hbucket hother hsame
    exact ⟨bucket, hbucket, hamem, hbmem⟩

end Bucket

namespace Graph

variable {g : Graph}

/-- **The buckets of a graph divide its nodes.** -/
theorem divide_buckets (g : Graph) (grouping : Grouping) :
    Bucket.Divide grouping.key g.nodes (g.buckets grouping) :=
  (Bucket.divide_nil grouping.key).foldl g.nodes

/-- Where ids are distinct, a node is in a bucket exactly if its id is in the group. -/
theorem id_mem_toGroup_iff (hg : g.ids.Nodup) {grouping : Grouping} {bucket : Bucket}
    (hbucket : bucket ∈ g.buckets grouping) {node : Node} (hnode : node ∈ g.nodes) :
    node.id ∈ bucket.toGroup.members ↔ node ∈ bucket.members := by
  refine ⟨fun hid => ?_, List.mem_map_of_mem⟩
  obtain ⟨other, hother, heq⟩ := List.mem_map.mp hid
  have hmem : other ∈ g.nodes := ((g.divide_buckets grouping).ordered bucket hbucket).subset hother
  exact List.inj_on_of_nodup_map hg hmem hnode heq ▸ hother

/-- **Two nodes are in the same group** exactly if they have the same key. -/
theorem exists_group_iff (hg : g.ids.Nodup) (grouping : Grouping) {a b : Node} (ha : a ∈ g.nodes)
    (hb : b ∈ g.nodes) :
    (∃ group ∈ g.groups grouping, a.id ∈ group.members ∧ b.id ∈ group.members) ↔
      grouping.key a = grouping.key b := by
  rw [← (g.divide_buckets grouping).exists_both_iff ha hb]
  constructor
  · rintro ⟨group, hgroup, hamem, hbmem⟩
    obtain ⟨bucket, hbucket, rfl⟩ := List.mem_map.mp hgroup
    exact ⟨bucket, hbucket, (id_mem_toGroup_iff hg hbucket ha).mp hamem,
      (id_mem_toGroup_iff hg hbucket hb).mp hbmem⟩
  · rintro ⟨bucket, hbucket, hamem, hbmem⟩
    exact ⟨bucket.toGroup, List.mem_map_of_mem hbucket, List.mem_map_of_mem hamem,
      List.mem_map_of_mem hbmem⟩

/-- Together the groups have every id, once. -/
theorem perm_groups (g : Graph) (grouping : Grouping) :
    ((g.groups grouping).flatMap Group.members).Perm g.ids := by
  have hids := (g.divide_buckets grouping).perm.map Node.id
  rw [List.map_flatMap] at hids
  rw [groups, List.flatMap_map]
  exact hids

/-- The first ids of the groups are in the order of the graph. -/
theorem firsts_groups_sublist (g : Graph) (grouping : Grouping) :
    ((g.groups grouping).filterMap (·.members.head?)).Sublist g.ids := by
  have hids := (g.divide_buckets grouping).firsts.map Node.id
  have hhead : ((·.members.head?) ∘ Bucket.toGroup : Bucket → Option NodeId) =
      fun bucket => bucket.members.head?.map Node.id := funext fun _ => List.head?_map
  rw [List.map_filterMap] at hids
  rwa [groups, List.filterMap_map, hhead]

/-- **No two groups have the same id.** -/
theorem nodup_group_ids (g : Graph) (grouping : Grouping) :
    ((g.groups grouping).map Group.id).Nodup := by
  have hprefix : Function.Injective ("g-" ++ · : String → String) :=
    fun _ _ heq => (String.append_right_inj _).mp heq
  have hids := (g.divide_buckets grouping).distinct.map hprefix
  rw [List.map_map] at hids
  rwa [groups, List.map_map]

/-- **Groups divide the nodes.** In a graph with distinct ids, and for each way to group, every id
is in one group, once, and no group is empty. Two nodes are in the same group exactly if they have
the same key. The ids of a group are in the order of the graph, and the groups are in the order in
which their first ids stand there. No two groups have the same id. -/
theorem groups_divide_nodes (hg : g.ids.Nodup) (grouping : Grouping) :
    let groups := g.groups grouping
    (groups.flatMap Group.members).Perm g.ids ∧
      (∀ group ∈ groups, group.members ≠ []) ∧
      (∀ a ∈ g.nodes, ∀ b ∈ g.nodes,
        (∃ group ∈ groups, a.id ∈ group.members ∧ b.id ∈ group.members) ↔
          grouping.key a = grouping.key b) ∧
      (∀ group ∈ groups, group.members.Sublist g.ids) ∧
      (groups.Pairwise fun earlier later =>
        ∀ x ∈ earlier.members.head?, ∀ y ∈ later.members.head?, g.ids.idxOf x < g.ids.idxOf y) ∧
      (groups.map Group.id).Nodup := by
  intro groups
  have h := g.divide_buckets grouping
  refine ⟨g.perm_groups grouping, ?_, fun a ha b hb => exists_group_iff hg grouping ha hb, ?_, ?_,
    g.nodup_group_ids grouping⟩
  · refine List.forall_mem_map.mpr fun bucket hbucket hnil => ?_
    exact h.ne_nil bucket hbucket (List.map_eq_nil_iff.mp hnil)
  · exact List.forall_mem_map.mpr fun bucket hbucket => (h.ordered bucket hbucket).map Node.id
  · have hplaces := (pairwise_idxOf hg).sublist (g.firsts_groups_sublist grouping)
    exact List.pairwise_filterMap.mp hplaces

/-- Four nodes, of which the third one has its key from its label and the last one from its shape.
The first group is found again behind the second one. -/
theorem groups_divide_nodes_again :
    let g : Graph := ⟨[⟨4, ⟨0, 0⟩, .circle, none, ⟨none, some "loops", [], []⟩⟩,
      ⟨2, ⟨0, 0⟩, .square, some "if x", .none⟩, ⟨7, ⟨0, 0⟩, .square, some "Loop 2", .none⟩,
      ⟨1, ⟨0, 0⟩, .square, none, ⟨none, some "", [], []⟩⟩], [], 8⟩
    g.ids.Nodup ∧ (g.groups .group).map Group.key = ["loops", "conditionals", "square"] ∧
      (g.groups .group).map Group.members = [[4, 7], [2], [1]] ∧
      ((g.groups .group).flatMap Group.members).Perm g.ids := by
  intro g
  have hg : g.ids.Nodup := by decide
  exact ⟨hg, by decide +kernel, by decide +kernel, (groups_divide_nodes hg .group).1⟩

end Graph

end Flowchart
