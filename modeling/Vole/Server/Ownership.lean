import Vole.Server.Cluster

/-!
# Agreement on who owns a key

Two servers that know the same nodes, all of them active, give each slot to the same node:
both functions that give out slots go through the nodes in the order of their identifiers.
How a server came to know the nodes makes no difference, nor does the order in which it lists
them.
-/

namespace Vole.Server

open Go Shares Transition List

/-- All nodes have slots, in the order of their identifiers. -/
def Ranked (nodes : List ClusterNode) : Prop :=
  ∃ order, Spread nodes order ∧ order.Perm (List.range nodes.length) ∧
    (order.map (idAt nodes)).Pairwise (· ≤ ·)

section
variable {tie : Nat → Nat} {nodes nodes' : List ClusterNode}

theorem idAt_congr (hid : nodes'.map ClusterNode.id = nodes.map ClusterNode.id) :
    idAt nodes' = idAt nodes := by
  funext i
  unfold idAt
  rw [← getElem?_map, ← getElem?_map, hid]

theorem Ranked.congr (h : Ranked nodes)
    (hspan : nodes'.map ClusterNode.span = nodes.map ClusterNode.span)
    (hid : nodes'.map ClusterNode.id = nodes.map ClusterNode.id) : Ranked nodes' := by
  obtain ⟨order, hspread, hperm, hsorted⟩ := h
  have hlen : nodes'.length = nodes.length := by
    simpa using congrArg length hid
  refine ⟨order, hspread.congr hspan, hlen ▸ hperm, ?_⟩
  rw [idAt_congr hid]
  exact hsorted

theorem map_idAt_range (nodes : List ClusterNode) :
    (range nodes.length).map (idAt nodes) = nodes.map ClusterNode.id := by
  refine ext_getElem? (fun i => ?_)
  rw [getElem?_map, getElem?_map]
  by_cases hi : i < nodes.length
  · rw [getElem?_range hi, getElem?_eq_getElem hi]
    show some (idAt nodes i) = _
    unfold idAt
    rw [getElem?_eq_getElem hi]
    rfl
  · rw [getElem?_eq_none (by simpa using hi), getElem?_eq_none (by simpa using hi)]
    rfl

theorem ranked_assign (hne : nodes ≠ []) : Ranked (assignSlots tie nodes) := by
  have hids : (assignSlots tie nodes).map ClusterNode.id
      = (sortSlice tie ClusterNode.id nodes).map ClusterNode.id :=
    assignSlots_map (fun _ _ _ => rfl) nodes
  have hlen : (assignSlots tie nodes).length = nodes.length := by
    have hmap := congrArg length hids
    rw [length_map, length_map] at hmap
    exact hmap.trans (sortSlice_perm tie ClusterNode.id nodes).length_eq
  refine ⟨_, assignSlots_spread hne, by rw [hlen], ?_⟩
  rw [← hlen, map_idAt_range, hids]
  exact pairwise_map.mpr (sortSlice_sorted tie ClusterNode.id nodes)

theorem activeIndices_of_all (hall : ∀ n ∈ nodes, n.active = true) :
    activeIndices nodes = range nodes.length := by
  unfold activeIndices
  rw [filter_eq_self]
  intro i hi
  rw [getElem?_eq_getElem (mem_range.mp hi)]
  exact hall _ (getElem_mem _)

theorem ranked_rebalance {c : Cluster} (hne : c.nodes ≠ [])
    (hall : ∀ n ∈ c.nodes, n.active = true) : Ranked (c.rebalanceSlots tie).nodes := by
  have hindices := activeIndices_of_all hall
  have hactive : activeIndices c.nodes ≠ [] := by
    rw [hindices]
    simpa using hne
  have hids : (c.rebalanceSlots tie).nodes.map ClusterNode.id = c.nodes.map ClusterNode.id :=
    rebalanceSlots_map (fun _ _ _ => rfl) (fun _ => rfl) c
  have hlen : (c.rebalanceSlots tie).nodes.length = c.nodes.length := by
    simpa using congrArg length hids
  refine ⟨_, rebalanceSlots_spread hactive, ?_, ?_⟩
  · rw [hlen, ← hindices]
    exact sortSlice_perm tie (idAt c.nodes) (activeIndices c.nodes)
  · rw [idAt_congr hids]
    exact pairwise_map.mpr (sortSlice_sorted tie (idAt c.nodes) (activeIndices c.nodes))

theorem Ranked.owner {c : Cluster} (h : Ranked c.nodes) (key : Bytes) :
    ∃ ids : List Bytes, ids.Perm (c.nodes.map ClusterNode.id) ∧ ids.Pairwise (· ≤ ·) ∧
      ids[holder slotCount ids.length (slot key)]? = some (c.owner key).id ∧
      c.owner key ∈ c.nodes := by
  obtain ⟨order, hspread, hperm, hsorted⟩ := h
  obtain ⟨a, ha⟩ := hspread.position_item (slot key)
  have howner : c.owner key = a := by
    unfold Cluster.owner
    rw [holds_eq_covers, hspread.find_eq (slot_lt key), ha]
    rfl
  refine ⟨order.map (idAt c.nodes), ?_, hsorted, ?_, ?_⟩
  · rw [← map_idAt_range]
    exact hperm.map _
  · rw [length_map, getElem?_map, hspread.position_eq, howner]
    show some (idAt c.nodes _) = _
    unfold idAt
    rw [ha]
    rfl
  · rw [howner]
    exact mem_of_getElem? ha

end

/-! ## Runs -/

namespace Gossip

/-- `MEET` and `FORGET`, and pings between them: all nodes are active whenever slots are given
out. -/
def AllActive (g : Gossip) : ClusterAction → Prop
  | .meet _ _ addr answer => (∀ n ∈ g.cluster.nodes, n.addr ≠ addr) → answer ≠ [] →
      ∀ n ∈ g.cluster.nodes, n.active = true
  | .forget _ id => id ≠ g.cluster.self.id → (∃ n ∈ g.cluster.nodes, n.id = id) →
      ∀ n ∈ g.cluster.nodes, n.id ≠ id → n.active = true
  | .reset => False
  | .ping | .pong _ _ _ => True

/-- What holds along such a run of the server `selfID`. -/
structure Ready (selfID : Bytes) (g : Gossip) : Prop where
  ranked : Ranked g.cluster.nodes
  self : g.cluster.self.id = selfID
  mine : selfID ∈ g.cluster.nodes.map ClusterNode.id

variable {tie : Nat → Nat} {selfID : Bytes} {g h : Gossip}

theorem ready_new (now : Time) (selfID addr peers : Bytes) :
    Ready selfID (start (newCluster tie now selfID addr peers)) := by
  let self : ClusterNode := ⟨selfID, addr, 0, slotCount - 1, true, .online, now⟩
  have hranked : Ranked (assignSlots tie (self :: peerNodes now peers)) :=
    ranked_assign (cons_ne_nil _ _)
  refine ⟨hranked.congr (marked_map (fun _ => rfl) selfID _) (marked_map (fun _ => rfl) selfID _),
    refresh_id self _, ?_⟩
  show selfID ∈ ((assignSlots tie (self :: peerNodes now peers)).map _).map ClusterNode.id
  rw [marked_map (fun _ => rfl), assignSlots_map (fun _ _ _ => rfl)]
  have hperm := (sortSlice_perm tie ClusterNode.id (self :: peerNodes now peers)).map
    ClusterNode.id
  exact hperm.mem_iff.mpr (.head _)

theorem ready_rebalance {c : Cluster} {pings : List Bytes} (hself : c.self.id = selfID)
    (hmine : selfID ∈ c.nodes.map ClusterNode.id) (hall : ∀ n ∈ c.nodes, n.active = true) :
    Ready selfID ⟨c.rebalanceSlots tie, pings⟩ := by
  have hne : c.nodes ≠ [] := by
    rintro hnil
    rw [hnil] at hmine
    exact not_mem_nil hmine
  refine ⟨ranked_rebalance hne hall, (rebalanceSlots_self c).trans hself, ?_⟩
  rw [rebalanceSlots_map (fun _ _ _ => rfl) (fun _ => rfl)]
  exact hmine

theorem ready_step {a : ClusterAction} (hg : Ready selfID g) (hok : g.AllActive a)
    (hstep : g.step a = some h) : Ready selfID h := by
  cases a with
  | meet tie now addr answer =>
    cases hstep
    unfold Cluster.meet
    split
    · exact hg
    rename_i hunknown
    split
    · exact hg
    rename_i hanswer
    have hunknown : ∀ n ∈ g.cluster.nodes, n.addr ≠ addr := by
      simpa using hunknown
    refine ready_rebalance hg.self ?_ ?_
    · rw [map_append]
      exact mem_append_left _ hg.mine
    · intro n hn
      rcases mem_append.mp hn with hn | hn
      · exact hok hunknown hanswer n hn
      · rw [mem_singleton.mp hn]
        rfl
  | forget tie id =>
    cases hstep
    unfold Cluster.forget
    split
    · exact hg
    rename_i hid
    split
    · exact hg
    rename_i hknown
    have hknown : ∃ n ∈ g.cluster.nodes, n.id = id := by
      simpa using hknown
    refine ready_rebalance hg.self ?_ ?_
    · obtain ⟨n, hn, hown⟩ := mem_map.mp hg.mine
      have hne : n.id ≠ id := by
        rw [hown, ← hg.self]
        exact Ne.symm hid
      exact mem_map.mpr ⟨n, mem_filter.mpr ⟨hn, by simpa using hne⟩, hown⟩
    · intro n hn
      obtain ⟨hn, hne⟩ := mem_filter.mp hn
      exact hok hid hknown n hn (by simpa using hne)
  | reset => exact absurd hok id
  | ping =>
    cases hstep
    exact ⟨hg.ranked, hg.self, hg.mine⟩
  | pong now id ok =>
    unfold step at hstep
    dsimp only at hstep
    split at hstep
    · cases hstep
      refine ⟨hg.ranked.congr (pongNodes_map (fun _ _ _ => rfl) now id ok _)
        (pongNodes_map (fun _ _ _ => rfl) now id ok _), hg.self, ?_⟩
      rw [pongNodes_map (fun _ _ _ => rfl)]
      exact hg.mine
    · cases hstep

end Gossip

/-! ## The list of peers -/

/-- A member of a cluster: its identifier and its address. -/
abbrev Member := Bytes × Bytes

/-- `id@address` -/
def peerText (m : Member) : Bytes := m.1 ++ 64 :: m.2

/-- The peers, separated by commas. -/
def peersText (peers : List Member) : Bytes := [44].intercalate (peers.map peerText)

/-- A text without a comma, an at sign or white space. -/
structure Clean (s : Bytes) : Prop where
  comma : 44 ∉ s
  at_ : 64 ∉ s
  space : ∀ text ∈ spaces, ¬ text <:+: s

theorem trimFront_of_clean {texts : List Bytes} {s : Bytes} (h : ∀ text ∈ texts, ¬ text <+: s)
    (fuel : Nat) : trimFront texts fuel s = s := by
  cases fuel with
  | zero => rfl
  | succ fuel =>
    unfold trimFront
    have hnone : texts.find? (·.isPrefixOf s) = none := by
      rw [find?_eq_none]
      intro text htext hpre
      exact h text htext ( isPrefixOf_iff_prefix.mp hpre)
    rw [hnone]

theorem prefix_of_separated {text a b : Bytes} {c : UInt8} (hc : c ∉ text)
    (h : text <+: a ++ c :: b) : text <+: a := by
  induction a generalizing text with
  | nil =>
    cases text with
    | nil => exact nil_prefix
    | cons x rest =>
      obtain ⟨rfl, -⟩ := cons_prefix_cons.mp h
      exact absurd (.head _) hc
  | cons y a ih =>
    cases text with
    | nil => exact nil_prefix
    | cons x rest =>
      obtain ⟨rfl, hrest⟩ := cons_prefix_cons.mp h
      have hc : c ∉ rest := fun hmem => hc (.tail _ hmem)
      exact cons_prefix_cons.mpr ⟨rfl, ih hc hrest⟩

theorem at_not_mem_spaces : ∀ text ∈ spaces, (64 : UInt8) ∉ text := by decide

theorem trimSpace_peerText {m : Member} (hid : Clean m.1) (haddr : Clean m.2) :
    trimSpace (peerText m) = peerText m := by
  have hfront : ∀ text ∈ spaces, ¬ text <+: peerText m := by
    intro text htext hpre
    have hin : text <+: m.1 := prefix_of_separated (at_not_mem_spaces text htext) hpre
    exact hid.space text htext hin.isInfix
  have hback : ∀ text ∈ spaces.map reverse, ¬ text <+: (peerText m).reverse := by
    intro reversed hreversed hpre
    obtain ⟨text, htext, rfl⟩ := mem_map.mp hreversed
    have hreverse : (peerText m).reverse = m.2.reverse ++ 64 :: m.1.reverse := by
      unfold peerText
      simp
    rw [hreverse] at hpre
    have hat : (64 : UInt8) ∉ text.reverse := by
      rw [mem_reverse]
      exact at_not_mem_spaces text htext
    have hin : text.reverse <+: m.2.reverse := prefix_of_separated hat hpre
    exact haddr.space text htext ( reverse_prefix.mp hin).isInfix
  unfold trimSpace
  dsimp only
  rw [trimFront_of_clean hfront, trimFront_of_clean hback, reverse_reverse]

theorem peerNode_peerText (now : Time) {m : Member} (hid : Clean m.1) (haddr : Clean m.2) :
    peerNode now (peerText m) = ⟨m.1, m.2, 0, 0, false, .online, now⟩ := by
  have hparts : (peerText m).splitOn 64 = [m.1, m.2] := by
    have hjoin : peerText m = [64].intercalate [m.1, m.2] := by
      simp [peerText, intercalate]
    rw [hjoin]
    refine splitOn_intercalate 64 ?_ (by simp)
    intro part hpart
    rcases mem_cons.mp hpart with rfl | hpart
    · exact hid.at_
    · rw [mem_singleton.mp hpart]
      exact haddr.at_
  unfold peerNode
  rw [hparts]
  rfl

theorem peerNodes_peersText (now : Time) {peers : List Member}
    (hclean : ∀ m ∈ peers, Clean m.1 ∧ Clean m.2) : peerNodes now (peersText peers)
      = peers.map (fun m => ⟨m.1, m.2, 0, 0, false, .online, now⟩) := by
  have htrim : ∀ m ∈ peers, trimSpace (peerText m) = peerText m :=
    fun m hm => trimSpace_peerText (hclean m hm).1 (hclean m hm).2
  cases hpeers : peers with
  | nil => rfl
  | cons first rest =>
    have hne : peers.map peerText ≠ [] := by
      rw [hpeers]
      exact cons_ne_nil _ _
    have hsplit : (peersText peers).splitOn 44 = peers.map peerText := by
      refine splitOn_intercalate 44 ?_ hne
      intro text htext
      obtain ⟨m, hm, rfl⟩ := mem_map.mp htext
      unfold peerText
      rw [mem_append, mem_cons]
      rintro (hmem | hmem | hmem)
      · exact (hclean m hm).1.comma hmem
      · cases hmem
      · exact (hclean m hm).2.comma hmem
    rw [← hpeers]
    unfold peerNodes
    rw [hsplit, map_map]
    have hmap : peers.map (trimSpace ∘ peerText) = peers.map peerText :=
      map_congr_left htrim
    have hkeep : (peers.map peerText).filter (· ≠ []) = peers.map peerText := by
      rw [filter_eq_self]
      intro text htext
      obtain ⟨m, -, rfl⟩ := mem_map.mp htext
      simp [peerText]
    rw [hmap, hkeep, map_map]
    exact map_congr_left (fun m hm =>
      peerNode_peerText now (hclean m hm).1 (hclean m hm).2)

/-! ## Agreement -/

/-- The view is one of exactly these members. -/
def Cluster.Views (members : List Member) (c : Cluster) : Prop :=
  (c.nodes.map (fun n => (n.id, n.addr))).Perm members

/-- The ways in which the member `a` can come to its view of the members: it starts with the
others as its peers, in some order, or it starts with any peers and meets and forgets nodes
until its view is the right one. -/
inductive Built (members : List Member) (a : Member) : Cluster → Prop where
  | listed (tie : Nat → Nat) (now : Time) {peers : List Member}
      (hpeers : (a :: peers).Perm members) :
      Built members a (newCluster tie now a.1 a.2 (peersText peers))
  | joined (tie : Nat → Nat) (now : Time) (peers : Bytes) {g : Gossip}
      (hrun : Reaches Gossip.step Gossip.AllActive
        (Gossip.start (newCluster tie now a.1 a.2 peers)) g)
      (hviews : g.cluster.Views members) : Built members a g.cluster

section
variable {members : List Member} {a b : Member} {c d : Cluster}

theorem Built.ready (h : Built members a c) (hclean : ∀ m ∈ members, Clean m.1 ∧ Clean m.2) :
    Ranked c.nodes ∧ c.self.id = a.1 ∧ c.Views members := by
  cases h with
  | listed tie now hpeers =>
    rename_i peers
    have hready : Gossip.Ready a.1
        (Gossip.start (newCluster tie now a.1 a.2 (peersText peers))) :=
      Gossip.ready_new now a.1 a.2 (peersText peers)
    refine ⟨hready.ranked, hready.self, ?_⟩
    have hclean : ∀ m ∈ peers, Clean m.1 ∧ Clean m.2 :=
      fun m hm => hclean m (hpeers.mem_iff.mp (.tail _ hm))
    unfold Cluster.Views newCluster
    rw [marked_map (fun _ => rfl), assignSlots_map (fun _ _ _ => rfl),
      peerNodes_peersText now hclean]
    refine ((sortSlice_perm tie ClusterNode.id _).map _).trans ?_
    rw [map_cons, map_map]
    have hpairs : peers.map ((fun n : ClusterNode => (n.id, n.addr)) ∘
        fun m : Member => ⟨m.1, m.2, 0, 0, false, .online, now⟩) = peers :=
      map_id peers
    rw [hpairs]
    exact hpeers
  | joined tie now peers hrun hviews =>
    have hready := hrun.invariant (Gossip.ready_new now a.1 a.2 peers)
      (fun _ _ _ hg hok hstep => Gossip.ready_step hg hok hstep)
    exact ⟨hready.ranked, hready.self, hviews⟩

theorem Built.owner_mem (h : Built members a c) (hclean : ∀ m ∈ members, Clean m.1 ∧ Clean m.2)
    (key : Bytes) : ((c.owner key).id, (c.owner key).addr) ∈ members := by
  obtain ⟨hranked, -, hviews⟩ := h.ready hclean
  obtain ⟨-, -, -, -, hmem⟩ := hranked.owner key
  exact hviews.mem_iff.mp (mem_map.mpr ⟨_, hmem, rfl⟩)

theorem Built.owner_eq (hc : Built members a c) (hd : Built members b d)
    (hclean : ∀ m ∈ members, Clean m.1 ∧ Clean m.2) (key : Bytes) :
    (c.owner key).id = (d.owner key).id := by
  obtain ⟨hranked, -, hviews⟩ := hc.ready hclean
  obtain ⟨hranked', -, hviews'⟩ := hd.ready hclean
  obtain ⟨ids, hperm, hsorted, howner, -⟩ := hranked.owner key
  obtain ⟨ids', hperm', hsorted', howner', -⟩ := hranked'.owner key
  -- both sort the identifiers of the members, which can be done in one way only
  have hids : (c.nodes.map ClusterNode.id).Perm (d.nodes.map ClusterNode.id) := by
    have hpairs := (hviews.trans hviews'.symm).map Prod.fst
    rw [map_map, map_map] at hpairs
    exact hpairs
  have hboth : ids.Perm ids' := (hperm.trans hids).trans hperm'.symm
  have heq : ids = ids' := hboth.eq_of_pairwise' hsorted hsorted'
  subst heq
  exact Option.some.inj (howner.symm.trans howner')

end

/-- **Servers agree on who owns a key.** Let two members have built their views of the same
members. They compute the same owner for each key. If one of them redirects a command on a key,
it names the address of a member, and no view which that member has built redirects the command
again. -/
theorem owners_agree (members : List Member)
    (hclean : ∀ m ∈ members, Clean m.1 ∧ Clean m.2) (a b : Member) (c d : Cluster)
    (hc : Built members a c) (hd : Built members b d) (key : Bytes) :
    (c.owner key).id = (d.owner key).id ∧ ∀ refusal, c.ensureOwns [key] = some refusal →
        ∃ o ∈ members, refusal = bytes "MOVED " ++ formatInt (slot key) ++ bytes " " ++ o.2 ∧
          o.1 = (c.owner key).id ∧ ∀ e, Built members o e → e.ensureOwns [key] = none := by
  refine ⟨hc.owner_eq hd hclean key, fun refusal hrefusal => ?_⟩
  refine ⟨_, hc.owner_mem hclean key, ?_, rfl, fun e he => ?_⟩
  · unfold Cluster.ensureOwns at hrefusal
    rw [if_neg (by simp)] at hrefusal
    obtain ⟨k, hk, rfl⟩ := Option.map_eq_some_iff.mp hrefusal
    have hmem := mem_of_find?_eq_some hk
    rw [mem_singleton.mp hmem]
    rfl
  · obtain ⟨-, hself, -⟩ := he.ready hclean
    have howns : e.selfOwns key = true := by
      unfold Cluster.selfOwns
      rw [decide_eq_true_iff, he.owner_eq hc hclean key]
      exact hself.symm
    unfold Cluster.ensureOwns
    rw [if_neg (by simp)]
    simp [howns]

/-- Three members, and the server `b` that meets the other two. -/
def threeMembers : List Member :=
  [(bytes "a", bytes "h1"), (bytes "b", bytes "h2"), (bytes "c", bytes "h3")]

def meetingRun : List ClusterAction :=
  [.meet id 0 (bytes "h3") (bytes "c"), .meet id 0 (bytes "h1") (bytes "a")]

/-- `a` starts with its peers listed, `b` meets them. -/
theorem owners_agree_three :
    let listed := newCluster id 0 (bytes "a") (bytes "h1")
      (peersText [(bytes "c", bytes "h3"), (bytes "b", bytes "h2")])
    ∃ g, runAll Gossip.step (Gossip.start (newCluster id 0 (bytes "b") (bytes "h2") [])) meetingRun
        = some g ∧ ∀ key, (listed.owner key).id = (g.cluster.owner key).id := by
  intro listed
  have hclean : ∀ m ∈ threeMembers, Clean m.1 ∧ Clean m.2 := by
    intro m hm
    simp only [threeMembers, mem_cons, not_mem_nil, or_false] at hm
    rcases hm with rfl | rfl | rfl
    all_goals exact ⟨⟨by decide, by decide, by decide⟩, ⟨by decide, by decide, by decide⟩⟩
  have hlisted : Built threeMembers (bytes "a", bytes "h1") listed :=
    .listed id 0 (List.Perm.cons _ (List.Perm.swap _ _ _))
  refine exists_of_runMeets Gossip.AllActive ⟨fun _ _ => ?_, fun _ _ => ?_, trivial⟩ rfl
    (fun hrun key => ?_)
  · decide
  · decide
  · refine (owners_agree threeMembers hclean _ (bytes "b", bytes "h2") _ _ hlisted
      (.joined id 0 [] hrun ?_) key).1
    unfold Cluster.Views
    decide

end Vole.Server
