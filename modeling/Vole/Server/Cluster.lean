import Mathlib.Data.List.TakeWhile
import Vole.Lib.Shares
import Vole.Lib.Transition
import Vole.Server.Command

/-!
# The cluster

`cluster.go`: the nodes that a server knows, the slots it gives them, and the changes of
membership. Slots are given out by two functions, `assignSlots` when the server starts and
`rebalanceSlots` afterwards; both sort by the nodes' identifiers. The network is a parameter:
what a node answers to `CLUSTER MYID`, and which pings are answered.
-/

namespace Vole.Server

open Go Shares Transition List

variable {order : List Nat}

def slotCount : Nat := 16384

/-- `NodeState`; `unset` is the empty text. -/
inductive NodeState where
  | unset | online | failing | offline
  deriving DecidableEq

structure ClusterNode where
  id : Bytes
  addr : Bytes
  start : Int
  stop : Int
  self : Bool
  state : NodeState
  lastPong : Time

structure Cluster where
  nodes : List ClusterNode
  self : ClusterNode

/-! ## Slots -/

/-- The part of a key that is hashed: what stands between the first brace and the next closing
one, if that is not empty. -/
def hashTag (key : Bytes) : Bytes :=
  match key.dropWhile (· ≠ 123) with
  | [] => key
  | _ :: rest =>
    let tag := rest.takeWhile (· ≠ 125)
    if 125 ∈ rest ∧ tag ≠ [] then tag else key

/-- `Slot` -/
def slot (key : Bytes) : Nat := (checksumIEEE (hashTag key)).toNat % slotCount

theorem slot_lt (key : Bytes) : slot key < slotCount := Nat.mod_lt _ (by decide)

namespace ClusterNode

/-- The range of slots of a node. -/
def span (n : ClusterNode) : Int × Int := (n.start, n.stop)

/-- `slot >= node.Start && slot <= node.End` -/
def holds (slot : Nat) (n : ClusterNode) : Bool :=
  decide (n.start ≤ slot ∧ (slot : Int) ≤ n.stop)

/-- The node gets share `j` of `count`. -/
def give (count j : Nat) (n : ClusterNode) : ClusterNode :=
  { n with start := (share slotCount count j).1, stop := (share slotCount count j).2 }

def cleared (n : ClusterNode) : ClusterNode := { n with start := -1, stop := -1 }

/-- The nodes that `rebalanceSlots` gives slots to. -/
def active (n : ClusterNode) : Bool := n.self || n.state = .online || n.state = .unset

/-- The entry of the server is marked. -/
def marked (selfID : Bytes) (n : ClusterNode) : ClusterNode :=
  if n.id = selfID then { n with self := true } else n

end ClusterNode

namespace Cluster

/-- `Owner` -/
def owner (c : Cluster) (key : Bytes) : ClusterNode :=
  (c.nodes.find? (ClusterNode.holds (slot key))).getD c.self

/-- `SelfOwns` -/
def selfOwns (c : Cluster) (key : Bytes) : Bool := (c.owner key).id = c.self.id

end Cluster

/-- `moved` -/
def moved (node : ClusterNode) (key : Bytes) : Bytes :=
  bytes "MOVED " ++ formatInt (slot key) ++ bytes " " ++ node.addr

/-- `ensureOwns`: the refusal it writes, if any. -/
def Cluster.ensureOwns (c : Cluster) (keys : List Bytes) : Option Bytes :=
  if 1 < keys.length ∧ 1 < c.nodes.length ∧ ∃ k ∈ keys.tail, slot k ≠ slot (keys.headD []) then
    some (bytes "CROSSSLOT Keys in request don't hash to the same slot")
  else (keys.find? (fun k => !c.selfOwns k)).map (fun k => moved (c.owner k) k)

/-! ## Hash tags -/

/-- The slot of a text without regard to braces. -/
def plainSlot (text : Bytes) : Nat := (checksumIEEE text).toNat % slotCount

/-- The first opening brace of the key is followed by the tag and a closing brace. -/
def Carries (tag key : Bytes) : Prop :=
  tag ≠ [] ∧ 125 ∉ tag ∧ ∃ front back, 123 ∉ front ∧ key = front ++ 123 :: (tag ++ 125 :: back)

theorem hashTag_open {front rest : Bytes} (hfront : 123 ∉ front) :
    hashTag (front ++ 123 :: rest) = if 125 ∈ rest ∧ rest.takeWhile (· ≠ 125) ≠ []
      then rest.takeWhile (· ≠ 125) else front ++ 123 :: rest := by
  have hdrop : (front ++ 123 :: rest).dropWhile (· ≠ 123) = 123 :: rest :=
    dropWhile_append_of_pos (by grind)
  unfold hashTag
  rw [hdrop]

theorem hashTag_of_carries {tag key : Bytes} (h : Carries tag key) : hashTag key = tag := by
  obtain ⟨hne, htag, front, back, hfront, rfl⟩ := h
  have htake : (tag ++ 125 :: back).takeWhile (· ≠ 125) = tag := by
    rw [takeWhile_append_of_pos (by grind)]
    simp
  rw [hashTag_open hfront, htake, if_pos ⟨by simp, hne⟩]

theorem hashTag_of_bare {key : Bytes} (h : ∀ tag, ¬ Carries tag key) : hashTag key = key := by
  by_cases hopen : 123 ∈ key
  · obtain ⟨front, rest, rfl, hfront⟩ := eq_append_cons_of_mem hopen
    rw [hashTag_open hfront, if_neg]
    rintro ⟨hclose, hne⟩
    obtain ⟨tag, back, rfl, htag⟩ := eq_append_cons_of_mem hclose
    refine h tag ⟨?_, htag, front, back, hfront, rfl⟩
    rintro rfl
    exact hne rfl
  · have hnone : key.dropWhile (· ≠ 123) = [] := dropWhile_eq_nil_iff.mpr (by grind)
    unfold hashTag
    rw [hnone]

/-- **Hash tags.** A key that carries a tag lies in the tag's slot, any other key is hashed whole,
and the keys of one tag are let through together. -/
theorem slot_of_tag :
    (∀ tag key, Carries tag key → slot key = plainSlot tag) ∧
    (∀ key, (∀ tag, ¬ Carries tag key) → slot key = plainSlot key) ∧
    (∀ key, slot key < 16384) ∧
    ∀ (c : Cluster) (tag : Bytes) (keys : List Bytes), (∀ k ∈ keys, Carries tag k) →
      ∀ k ∈ keys, (c.ensureOwns keys = none ↔ c.ensureOwns [k] = none) := by
  have hslot : ∀ tag key, Carries tag key → slot key = plainSlot tag := by
    intro tag key h
    unfold slot
    rw [hashTag_of_carries h, plainSlot]
  refine ⟨hslot, fun key h => ?_, slot_lt, fun c tag keys hkeys k hk => ?_⟩
  · unfold slot
    rw [hashTag_of_bare h, plainSlot]
  have howns : ∀ k' ∈ keys, c.selfOwns k' = c.selfOwns k := by
    intro k' hk'
    unfold Cluster.selfOwns Cluster.owner
    rw [hslot tag k' (hkeys k' hk'), hslot tag k (hkeys k hk)]
  have hhead : keys.headD [] ∈ keys := by
    cases keys with
    | nil => cases hk
    | cons first rest => exact .head _
  have hone : ¬ ∃ k' ∈ keys.tail, slot k' ≠ slot (keys.headD []) := by
    rintro ⟨k', hk', hne⟩
    exact hne ((hslot tag k' (hkeys k' (mem_of_mem_tail hk'))).trans
      (hslot tag _ (hkeys _ hhead)).symm)
  unfold Cluster.ensureOwns
  rw [if_neg (fun h => hone h.2.2), if_neg (by simp)]
  simp only [Option.map_eq_none_iff, find?_eq_none, mem_singleton, forall_eq]
  exact ⟨fun h => h k hk, fun h k' hk' => howns k' hk' ▸ h⟩

/-! ## Giving out slots -/

/-- `sort.Slice` by a text. The sort is not stable: `tie` says in which order elements with the
same text come out. -/
def sortSlice {α : Type} (tie : Nat → Nat) (key : α → Bytes) (xs : List α) : List α :=
  (xs.zipIdx.insertionSort (fun a b =>
    key a.1 < key b.1 ∨ (key a.1 = key b.1 ∧ tie a.2 ≤ tie b.2))).map Prod.fst

/-- `assignSlots` -/
def assignSlots (tie : Nat → Nat) (nodes : List ClusterNode) : List ClusterNode :=
  (sortSlice tie ClusterNode.id nodes).mapIdx (ClusterNode.give nodes.length)

/-- The loop of `rebalanceSlots` over the sorted indices. -/
def giveShares (count : Nat) : Nat → List Nat → List ClusterNode → List ClusterNode
  | _, [], nodes => nodes
  | j, i :: rest, nodes => giveShares count (j + 1) rest (nodes.modify i (ClusterNode.give count j))

/-- The last node with the identifier of this server. -/
def refresh (self : ClusterNode) (nodes : List ClusterNode) : ClusterNode :=
  nodes.foldl (fun self n => if n.id = self.id then n else self) self

def idAt (nodes : List ClusterNode) (i : Nat) : Bytes := ((nodes[i]?).map ClusterNode.id).getD []

def activeIndices (nodes : List ClusterNode) : List Nat :=
  (List.range nodes.length).filter (fun i => ((nodes[i]?).map ClusterNode.active).getD false)

namespace Cluster

/-- `rebalanceSlots` -/
def rebalanceSlots (tie : Nat → Nat) (c : Cluster) : Cluster :=
  let active := activeIndices c.nodes
  if active = [] then c
  else
    let order := sortSlice tie (idAt c.nodes) active
    let nodes := giveShares active.length 0 order (c.nodes.map ClusterNode.cleared)
    ⟨nodes, refresh c.self nodes⟩

/-! ## Membership -/

/-- `Meet`: `answer` is what `fetchNodeID` returns. -/
def meet (tie : Nat → Nat) (now : Time) (addr answer : Bytes) (c : Cluster) :
    Except Bytes Unit × Cluster :=
  if c.nodes.any (·.addr = addr) then (.ok (), c)
  else if answer = [] then (.error (bytes "cannot reach node at " ++ addr), c)
  else
    let node : ClusterNode := ⟨answer, addr, 0, 0, false, .online, now⟩
    (.ok (), { c with nodes := c.nodes ++ [node] }.rebalanceSlots tie)

/-- `Forget` -/
def forget (tie : Nat → Nat) (id : Bytes) (c : Cluster) : Except Bytes Unit × Cluster :=
  if id = c.self.id then (.error (bytes "cannot forget self"), c)
  else if !c.nodes.any (·.id = id) then (.error (bytes "unknown node " ++ id), c)
  else (.ok (), { c with nodes := c.nodes.filter (·.id ≠ id) }.rebalanceSlots tie)

/-- `Reset` -/
def reset (c : Cluster) : Cluster :=
  let self := { c.self with start := 0, stop := slotCount - 1, state := .online }
  ⟨[self], self⟩

end Cluster

/-- The texts that `strings.TrimSpace` removes: the UTF-8 forms of the white space of
Unicode. -/
def spaces : List Bytes :=
  [[9], [10], [11], [12], [13], [32], [0xC2, 0x85], [0xC2, 0xA0], [0xE1, 0x9A, 0x80],
    [0xE2, 0x80, 0x80], [0xE2, 0x80, 0x81], [0xE2, 0x80, 0x82], [0xE2, 0x80, 0x83],
    [0xE2, 0x80, 0x84], [0xE2, 0x80, 0x85], [0xE2, 0x80, 0x86], [0xE2, 0x80, 0x87],
    [0xE2, 0x80, 0x88], [0xE2, 0x80, 0x89], [0xE2, 0x80, 0x8A], [0xE2, 0x80, 0xA8],
    [0xE2, 0x80, 0xA9], [0xE2, 0x80, 0xAF], [0xE2, 0x81, 0x9F], [0xE3, 0x80, 0x80]]

/-- Removing texts from the front, as often as the fuel lasts. -/
def trimFront (texts : List Bytes) : Nat → Bytes → Bytes
  | 0, s => s
  | fuel + 1, s =>
    match texts.find? (·.isPrefixOf s) with
    | none => s
    | some text => trimFront texts fuel (s.drop text.length)

/-- `strings.TrimSpace` -/
def trimSpace (s : Bytes) : Bytes :=
  let s := trimFront spaces s.length s
  (trimFront (spaces.map List.reverse) s.length s.reverse).reverse

/-- One peer of the list, `id@address` or an address. -/
def peerNode (now : Time) (peer : Bytes) : ClusterNode :=
  let parts := peer.splitOn 64
  ⟨parts.headD [], if parts.length = 2 then parts.getD 1 [] else peer, 0, 0, false, .online, now⟩

def peerNodes (now : Time) (peers : Bytes) : List ClusterNode :=
  (((peers.splitOn 44).map trimSpace).filter (· ≠ [])).map (peerNode now)

/-- `NewCluster` -/
def newCluster (tie : Nat → Nat) (now : Time) (selfID addr peers : Bytes) : Cluster :=
  let self : ClusterNode := ⟨selfID, addr, 0, slotCount - 1, true, .online, now⟩
  let nodes := (assignSlots tie (self :: peerNodes now peers)).map (ClusterNode.marked selfID)
  ⟨nodes, refresh self nodes⟩

/-! ## Pings -/

/-- What one goroutine of `pingPeers` does with the result of its ping. -/
def pongNodes (now : Time) (id : Bytes) (ok : Bool) : List ClusterNode → List ClusterNode
  | [] => []
  | n :: rest =>
    if n.id = id then
      (if ok then { n with lastPong := now, state := .online }
      else if 30 * second < timeSub now n.lastPong then { n with state := .offline }
      else { n with state := .failing }) :: rest
    else n :: pongNodes now id ok rest

/-- A server's view of the cluster, and the peers it is waiting for. -/
structure Gossip where
  cluster : Cluster
  pings : List Bytes

inductive ClusterAction where
  | meet (tie : Nat → Nat) (now : Time) (addr answer : Bytes)
  | forget (tie : Nat → Nat) (id : Bytes)
  | reset
  | ping
  | pong (now : Time) (id : Bytes) (ok : Bool)

namespace Gossip

def start (c : Cluster) : Gossip := ⟨c, []⟩

/-- A ping ends when its peer answers or its time is up; the cluster may have changed since
it was sent. -/
def step (g : Gossip) : ClusterAction → Option Gossip
  | .meet tie now addr answer => some { g with cluster := (g.cluster.meet tie now addr answer).2 }
  | .forget tie id => some { g with cluster := (g.cluster.forget tie id).2 }
  | .reset => some { g with cluster := g.cluster.reset }
  | .ping => some { g with
      pings := g.pings ++ (g.cluster.nodes.filter (fun n => !n.self)).map ClusterNode.id }
  | .pong now id ok =>
    if id ∈ g.pings then
      some ⟨{ g.cluster with nodes := pongNodes now id ok g.cluster.nodes }, g.pings.erase id⟩
    else none

end Gossip

/-! ## Sorting -/

section
variable {α : Type} (tie : Nat → Nat) (key : α → Bytes) (xs : List α)

theorem sortSlice_perm : (sortSlice tie key xs).Perm xs := by
  have hperm := (perm_insertionSort (fun a b : α × Nat =>
    key a.1 < key b.1 ∨ (key a.1 = key b.1 ∧ tie a.2 ≤ tie b.2)) xs.zipIdx).map Prod.fst
  rw [zipIdx_map_fst] at hperm
  exact hperm

theorem sortSlice_sorted : (sortSlice tie key xs).Pairwise (fun a b => key a ≤ key b) := by
  let before (a b : α × Nat) : Prop :=
    key a.1 < key b.1 ∨ (key a.1 = key b.1 ∧ tie a.2 ≤ tie b.2)
  have htotal : Std.Total before := by
    refine ⟨fun a b => ?_⟩
    rcases lt_trichotomy (key a.1) (key b.1) with h | h | h
    · exact .inl (.inl h)
    · rcases Nat.le_total (tie a.2) (tie b.2) with ht | ht
      · exact .inl (.inr ⟨h, ht⟩)
      · exact .inr (.inr ⟨h.symm, ht⟩)
    · exact .inr (.inl h)
  have htrans : IsTrans (α × Nat) before := by
    refine ⟨fun a b c hab hbc => ?_⟩
    rcases hab with hab | ⟨hab, htab⟩
    · rcases hbc with hbc | ⟨hbc, -⟩
      · exact .inl (hab.trans hbc)
      · exact .inl (hbc ▸ hab)
    · rcases hbc with hbc | ⟨hbc, htbc⟩
      · exact .inl (hab ▸ hbc)
      · exact .inr ⟨hab.trans hbc, htab.trans htbc⟩
  have hsorted := pairwise_insertionSort before xs.zipIdx
  unfold sortSlice
  rw [pairwise_map]
  refine hsorted.imp (fun {a b} h => ?_)
  rcases h with h | ⟨h, -⟩
  · exact h.le
  · exact h.le

end

/-! ## Both functions divide the slots -/

section
variable {tie : Nat → Nat} {nodes : List ClusterNode}

theorem holds_eq_covers (slot : Nat) : ClusterNode.holds slot = covers ClusterNode.span slot := rfl

/-- The slots are given to the nodes at the positions of `order`. -/
abbrev Spread (nodes : List ClusterNode) (order : List Nat) : Prop :=
  Divided slotCount ClusterNode.span nodes order

theorem Spread.congr {nodes' : List ClusterNode} (h : Spread nodes order)
    (hspan : nodes'.map ClusterNode.span = nodes.map ClusterNode.span) : Spread nodes' order := by
  have hat : ∀ i : Nat, (nodes'[i]?).map ClusterNode.span = (nodes[i]?).map ClusterNode.span := by
    intro i
    rw [← getElem?_map, ← getElem?_map, hspan]
  refine ⟨h.nonempty, h.nodup, fun j i hj => ?_, fun i a ha hi => ?_⟩
  · obtain ⟨a, ha, hshare⟩ := h.share j i hj
    have hsome := hat i
    rw [ha] at hsome
    obtain ⟨b, hb, hspan⟩ := Option.map_eq_some_iff.mp hsome
    exact ⟨b, hb, hspan.trans hshare⟩
  · have hsome := hat i
    rw [ha] at hsome
    obtain ⟨b, hb, hspan⟩ := Option.map_eq_some_iff.mp hsome.symm
    rw [← hspan]
    exact h.idle i b hb hi

theorem assignSlots_spread (hne : nodes ≠ []) :
    Spread (assignSlots tie nodes) (range nodes.length) := by
  have hlen : (sortSlice tie ClusterNode.id nodes).length = nodes.length :=
    (sortSlice_perm tie ClusterNode.id nodes).length_eq
  refine ⟨by simpa using hne, nodup_range, fun j i hj => ?_, fun i a ha hi => ?_⟩
  · obtain ⟨hlt, hji⟩ := List.getElem?_eq_some_iff.mp hj
    rw [getElem_range] at hji
    subst hji
    rw [length_range] at hlt ⊢
    have hlt' : j < (sortSlice tie ClusterNode.id nodes).length := hlen ▸ hlt
    refine ⟨ClusterNode.give nodes.length j ((sortSlice tie ClusterNode.id nodes).get ⟨j, hlt'⟩),
      ?_, rfl⟩
    unfold assignSlots
    rw [getElem?_mapIdx, getElem?_eq_getElem hlt']
    rfl
  · have hlt := (List.getElem?_eq_some_iff.mp ha).1
    unfold assignSlots at hlt
    rw [length_mapIdx, hlen] at hlt
    exact absurd (mem_range.mpr hlt) hi

theorem assignSlots_map {β : Type} {f : ClusterNode → β}
    (hf : ∀ count j n, f (ClusterNode.give count j n) = f n) (nodes : List ClusterNode) :
    (assignSlots tie nodes).map f = (sortSlice tie ClusterNode.id nodes).map f := by
  unfold assignSlots
  refine ext_getElem? (fun i => ?_)
  rw [getElem?_map, getElem?_mapIdx, getElem?_map, Option.map_map]
  exact congrArg (Option.map · _) (funext (fun n => hf _ i n))

theorem marked_map {β : Type} {f : ClusterNode → β} (hf : ∀ n, f { n with self := true } = f n)
    (selfID : Bytes) (nodes : List ClusterNode) :
    (nodes.map (ClusterNode.marked selfID)).map f = nodes.map f := by
  rw [map_map]
  refine map_congr_left (fun n _ => ?_)
  show f (n.marked selfID) = f n
  unfold ClusterNode.marked
  split
  · exact hf n
  · rfl

theorem giveShares_of_not_mem {count i : Nat} (j : Nat) (hi : i ∉ order) :
    (giveShares count j order nodes)[i]? = nodes[i]? := by
  induction order generalizing j nodes with
  | nil => rfl
  | cons k rest ih =>
    rw [mem_cons, not_or] at hi
    unfold giveShares
    rw [ih (j + 1) hi.2, getElem?_modify_ne _ _ (Ne.symm hi.1)]

theorem giveShares_of_getElem? {count i k : Nat} (j : Nat)
    (hnodup : order.Nodup) (hk : order[k]? = some i) :
    (giveShares count j order nodes)[i]? = (nodes[i]?).map (ClusterNode.give count (j + k)) := by
  induction order generalizing j k nodes with
  | nil => cases hk
  | cons i' rest ih =>
    obtain ⟨hnot, hrest⟩ := nodup_cons.mp hnodup
    unfold giveShares
    cases k with
    | zero =>
      have heq : i' = i := by simpa using hk
      subst heq
      rw [giveShares_of_not_mem (j + 1) hnot, getElem?_modify_eq]
      rfl
    | succ k =>
      have hne : i' ≠ i := by
        rintro rfl
        exact hnot (mem_of_getElem? hk)
      have hsum : j + 1 + k = j + (k + 1) := by omega
      rw [ih (j + 1) hrest hk, getElem?_modify_ne _ _ hne, hsum]

theorem giveShares_map {β : Type} {f : ClusterNode → β}
    (hf : ∀ count j n, f (ClusterNode.give count j n) = f n) (count j : Nat) (order : List Nat)
    (nodes : List ClusterNode) :
    (giveShares count j order nodes).map f = nodes.map f := by
  induction order generalizing j nodes with
  | nil => rfl
  | cons i rest ih =>
    unfold giveShares
    rw [ih]
    refine ext_getElem? (fun k => ?_)
    rw [getElem?_map, getElem?_map, getElem?_modify]
    cases nodes[k]? with
    | none => rfl
    | some n =>
      show some (f (if i = k then ClusterNode.give count j n else n)) = some (f n)
      split
      · rw [hf]
      · rfl

theorem mem_activeIndices {i : Nat} :
    i ∈ activeIndices nodes ↔ ∃ n, nodes[i]? = some n ∧ n.active = true := by
  unfold activeIndices
  rw [mem_filter, mem_range]
  constructor
  · rintro ⟨hlt, hactive⟩
    rw [getElem?_eq_getElem hlt] at hactive ⊢
    exact ⟨_, rfl, hactive⟩
  · rintro ⟨n, hn, hactive⟩
    refine ⟨(List.getElem?_eq_some_iff.mp hn).1, ?_⟩
    rw [hn]
    exact hactive

theorem rebalanceSlots_spread {c : Cluster} (hne : activeIndices c.nodes ≠ []) :
    Spread (c.rebalanceSlots tie).nodes (sortSlice tie (idAt c.nodes) (activeIndices c.nodes)) := by
  have hperm := sortSlice_perm tie (idAt c.nodes) (activeIndices c.nodes)
  have hnodup : (sortSlice tie (idAt c.nodes) (activeIndices c.nodes)).Nodup :=
    hperm.nodup_iff.mpr (nodup_range.filter _)
  have hlen := hperm.length_eq
  have hnodes : (c.rebalanceSlots tie).nodes = giveShares (activeIndices c.nodes).length 0
      (sortSlice tie (idAt c.nodes) (activeIndices c.nodes)) (c.nodes.map ClusterNode.cleared) := by
    unfold Cluster.rebalanceSlots
    rw [if_neg hne]
  rw [hnodes]
  refine ⟨fun hnil => hne (nil_perm.mp (hnil ▸ hperm)), hnodup, fun j i hj => ?_,
    fun i a ha hi => ?_⟩
  · obtain ⟨n, hn, -⟩ := mem_activeIndices.mp (hperm.mem_iff.mp (mem_of_getElem? hj))
    refine ⟨ClusterNode.give (activeIndices c.nodes).length (0 + j) n.cleared, ?_, ?_⟩
    · rw [giveShares_of_getElem? 0 hnodup hj, getElem?_map, hn]
      rfl
    · rw [hlen, Nat.zero_add]
      rfl
  · rw [giveShares_of_not_mem 0 hi, getElem?_map] at ha
    obtain ⟨n, -, rfl⟩ := Option.map_eq_some_iff.mp ha
    exact (by decide : (-1 : Int) < 0)

theorem rebalanceSlots_map {β : Type} {f : ClusterNode → β}
    (hf : ∀ count j n, f (ClusterNode.give count j n) = f n) (hf' : ∀ n, f n.cleared = f n)
    (c : Cluster) : (c.rebalanceSlots tie).nodes.map f = c.nodes.map f := by
  unfold Cluster.rebalanceSlots
  dsimp only
  split
  · rfl
  · rw [giveShares_map hf, map_map]
    exact map_congr_left (fun n _ => hf' n)

theorem refresh_id (self : ClusterNode) (nodes : List ClusterNode) :
    (refresh self nodes).id = self.id := by
  unfold refresh
  induction nodes generalizing self with
  | nil => rfl
  | cons n rest ih =>
    rw [foldl_cons, ih]
    split
    · assumption
    · rfl

theorem rebalanceSlots_self (c : Cluster) : (c.rebalanceSlots tie).self.id = c.self.id := by
  unfold Cluster.rebalanceSlots
  dsimp only
  split
  · rfl
  · exact refresh_id _ _

theorem pongNodes_map {β : Type} {f : ClusterNode → β}
    (hf : ∀ n lastPong state, f { n with lastPong := lastPong, state := state } = f n)
    (now : Time) (id : Bytes) (ok : Bool) (nodes : List ClusterNode) :
    (pongNodes now id ok nodes).map f = nodes.map f := by
  induction nodes with
  | nil => rfl
  | cons n rest ih =>
    unfold pongNodes
    split
    · rw [map_cons, map_cons]
      congr 1
      split
      · exact hf n now .online
      split
      · exact hf n n.lastPong .offline
      · exact hf n n.lastPong .failing
    · rw [map_cons, map_cons, ih]

end

/-! ## Runs -/

namespace Gossip

/-- What holds along a run: the slots are divided, and the server is one of the nodes. -/
structure Sound (g : Gossip) : Prop where
  divided : ∃ order, Spread g.cluster.nodes order
  mine : (true, g.cluster.self.id) ∈ g.cluster.nodes.map (fun n => (n.self, n.id))

/-- `RESET` keeps the node that is listed last under the server's own identifier; that has to
be the server. -/
def KeepsSelf (g : Gossip) : ClusterAction → Prop
  | .reset => g.cluster.self.self = true
  | _ => True

variable {tie : Nat → Nat} {c : Cluster} {pings : List Bytes}

theorem sound_rebalance (hmine : (true, c.self.id) ∈ c.nodes.map (fun n => (n.self, n.id))) :
    Sound ⟨c.rebalanceSlots tie, pings⟩ := by
  have hactive : activeIndices c.nodes ≠ [] := by
    obtain ⟨n, hn, hpair⟩ := mem_map.mp hmine
    obtain ⟨hself, -⟩ := Prod.mk.inj hpair
    obtain ⟨i, hi⟩ := mem_iff_getElem?.mp hn
    have hactive : n.active = true := by
      unfold ClusterNode.active
      rw [hself]
      rfl
    exact ne_nil_of_mem (mem_activeIndices.mpr ⟨n, hi, hactive⟩)
  refine ⟨⟨_, rebalanceSlots_spread hactive⟩, ?_⟩
  rw [rebalanceSlots_map (fun _ _ _ => rfl) (fun _ => rfl), rebalanceSlots_self]
  exact hmine

theorem sound_new (now : Time) (selfID addr peers : Bytes) :
    Sound (start (newCluster tie now selfID addr peers)) := by
  let self : ClusterNode := ⟨selfID, addr, 0, slotCount - 1, true, .online, now⟩
  have hspread : Spread (assignSlots tie (self :: peerNodes now peers)) _ :=
    assignSlots_spread (cons_ne_nil _ _)
  refine ⟨⟨_, hspread.congr (marked_map (fun _ => rfl) selfID _)⟩, ?_⟩
  -- the server is in the sorted list, under its identifier
  have hid : selfID ∈ (assignSlots tie (self :: peerNodes now peers)).map ClusterNode.id := by
    rw [assignSlots_map (fun _ _ _ => rfl)]
    have hperm := (sortSlice_perm tie ClusterNode.id (self :: peerNodes now peers)).map
      ClusterNode.id
    exact hperm.mem_iff.mpr (.head _)
  obtain ⟨n, hn, hown⟩ := mem_map.mp hid
  refine mem_map.mpr ⟨n.marked selfID, mem_map.mpr ⟨n, hn, rfl⟩, ?_⟩
  unfold ClusterNode.marked
  rw [if_pos hown]
  exact Prod.ext rfl (hown.trans (refresh_id self _).symm)

theorem sound_step {g h : Gossip} {a : ClusterAction} (hg : g.Sound) (hok : g.KeepsSelf a)
    (hstep : g.step a = some h) : h.Sound := by
  cases a with
  | meet tie now addr answer =>
    cases hstep
    unfold Cluster.meet
    split
    · exact hg
    split
    · exact hg
    · refine sound_rebalance ?_
      rw [map_append]
      exact mem_append_left _ hg.mine
  | forget tie id =>
    cases hstep
    unfold Cluster.forget
    split
    · exact hg
    rename_i hid
    split
    · exact hg
    · refine sound_rebalance ?_
      obtain ⟨n, hn, hpair⟩ := mem_map.mp hg.mine
      obtain ⟨-, hown⟩ := Prod.mk.inj hpair
      have hne : n.id ≠ id := by
        rw [hown]
        exact Ne.symm hid
      exact mem_map.mpr ⟨n, mem_filter.mpr ⟨hn, by simpa using hne⟩, hpair⟩
  | reset =>
    cases hstep
    have hself : g.cluster.self.self = true := hok
    refine ⟨⟨[0], ?_⟩, ?_⟩
    · refine ⟨cons_ne_nil _ _, nodup_singleton 0, fun j i hj => ?_, fun i a ha hi => ?_⟩
      · obtain ⟨hlt, rfl⟩ := List.getElem?_eq_some_iff.mp hj
        have hj : j = 0 := by simpa using hlt
        subst hj
        exact ⟨_, rfl, rfl⟩
      · have hlt : i < 1 := (List.getElem?_eq_some_iff.mp ha).1
        exact absurd (mem_singleton.mpr (by omega)) hi
    · refine List.mem_map.mpr ⟨_, List.mem_singleton.mpr rfl, ?_⟩
      show (g.cluster.self.self, g.cluster.self.id) = (true, g.cluster.self.id)
      rw [hself]
  | ping =>
    cases hstep
    exact ⟨hg.divided, hg.mine⟩
  | pong now id ok =>
    unfold step at hstep
    dsimp only at hstep
    split at hstep
    · cases hstep
      obtain ⟨order, hspread⟩ := hg.divided
      refine ⟨⟨order, hspread.congr (pongNodes_map (fun _ _ _ => rfl) now id ok _)⟩, ?_⟩
      rw [pongNodes_map (fun _ _ _ => rfl)]
      exact hg.mine
    · cases hstep

end Gossip

/-- **Each slot belongs to one node.** From any start, in every run of `MEET`, `FORGET`, pings
and `RESET` in which a reset keeps the server itself, each of the slots lies in the range of
exactly one node of the list, and `Owner` finds that node. -/
theorem slots_partitioned (tie : Nat → Nat) (now : Time) (selfID addr peers : Bytes) (g : Gossip)
    (hrun : Reaches Gossip.step Gossip.KeepsSelf
      (Gossip.start (newCluster tie now selfID addr peers)) g) :
    (∀ slot < slotCount, g.cluster.nodes.countP (ClusterNode.holds slot) = 1) ∧
      ∀ key, g.cluster.owner key ∈ g.cluster.nodes ∧
        ∀ n ∈ g.cluster.nodes, n.holds (slot key) = true ↔ n = g.cluster.owner key := by
  have hsound : g.Sound := hrun.invariant (Gossip.sound_new now selfID addr peers)
    (fun _ _ _ hg hok hstep => Gossip.sound_step hg hok hstep)
  obtain ⟨order, hspread⟩ := hsound.divided
  refine ⟨fun slot hslot => hspread.countP_eq_one hslot, fun key => ?_⟩
  obtain ⟨a, ha⟩ := hspread.position_item (slot key)
  have howner : g.cluster.owner key = a := by
    unfold Cluster.owner
    rw [holds_eq_covers, hspread.find_eq (slot_lt key), ha]
    rfl
  rw [howner]
  refine ⟨mem_of_getElem? ha, fun n hn => ?_⟩
  obtain ⟨i, hi⟩ := mem_iff_getElem?.mp hn
  rw [holds_eq_covers, hspread.covers_iff (slot_lt key) hi]
  constructor
  · rintro rfl
    exact Option.some.inj (hi.symm.trans ha)
  · rintro rfl
    have hcovers := (hspread.covers_iff (slot_lt key) ha).mpr rfl
    exact (hspread.covers_iff (slot_lt key) hi).mp hcovers

/-- A server `a` with a peer `b` is reset, meets `c` and `b`, does not hear from `b`, forgets `b`
and meets `d`. -/
def clusterRun : List ClusterAction :=
  [.reset, .meet id 0 (bytes "h3") (bytes "c"), .meet id 0 (bytes "h2") (bytes "b"), .ping,
    .pong 0 (bytes "b") false, .forget id (bytes "b"), .meet id 0 (bytes "h4") (bytes "d")]

/-- Three nodes share the slots in the end. -/
theorem slots_partitioned_run : ∃ g, runAll Gossip.step
        (Gossip.start (newCluster id 0 (bytes "a") (bytes "h1") (bytes "b@h2"))) clusterRun = some g ∧
      g.cluster.nodes.map (·.id) = [bytes "a", bytes "c", bytes "d"] ∧
      ∀ slot < slotCount, g.cluster.nodes.countP (ClusterNode.holds slot) = 1 := by
  refine exists_of_runMeets Gossip.KeepsSelf
    ⟨rfl, trivial, trivial, trivial, trivial, trivial, trivial, trivial⟩ rfl (fun hrun => ⟨?_, ?_⟩)
  · decide +kernel
  · exact (slots_partitioned id 0 (bytes "a") (bytes "h1") (bytes "b@h2") _ hrun).1

/-- `MEET` of a node that answers `a`, `RESET`, a ping without an answer, and a third node that
comes and goes. -/
def captureRun : List ClusterAction :=
  [.meet id 0 (bytes "h2") (bytes "a"), .reset, .ping, .pong 0 (bytes "a") false,
    .meet id 0 (bytes "h3") (bytes "b"), .forget id (bytes "b")]

/-- Another node answers `MEET` with the identifier `a` of this one, which is then reset and keeps
the other node in its own place. Once that node fails to answer a ping, it does not count as
active, and after `MEET` and `FORGET` of a third node no slot belongs to anybody. -/
theorem slots_uncovered : ∃ g, Reaches Gossip.step (fun _ _ => True)
        (Gossip.start (newCluster id 0 (bytes "a") (bytes "h1") [])) g ∧
      g.cluster.nodes.countP (ClusterNode.holds 0) = 0 := by
  refine ⟨_, reaches_of_runAll (show runAll _ _ captureRun = some _ from rfl), ?_⟩
  decide +kernel

end Vole.Server
