import Vole.Server.Frame
import Vole.Server.Recovery
import Vole.Store.Prefixed

/-!
# Namespaces

A client that has sent `NAMESPACE USE n` has the prefix `n:` put before its keys, by a table
of words that is kept beside the switch of `exec`. The table misses many words, has others at
the wrong place, and some replies show the prefix. Where table and switch agree, the client
sees what it would see on a server of its own, whatever clients of other namespaces do.
-/

namespace Vole.Server

open Go Transition List

variable {args : List Bytes} {p : Bytes} {call : ClientCall}

/-! ## Names -/

/-- The prefix of a namespace. -/
def nsPrefixOf (n : Bytes) : Bytes := n ++ bytes ":"

theorem nsPrefixOf_ne_nil (n : Bytes) : nsPrefixOf n ≠ [] :=
  append_ne_nil_of_right_ne_nil n (by decide)

theorem prefixKeyArgs_eq (hp : p ≠ []) (args : List Bytes) :
    prefixKeyArgs args p = (KeyArgs.of (toUpper (args.headD []))).rename (p ++ ·) args :=
  if_neg hp

theorem stripKeyPrefix_append (p k : Bytes) : stripKeyPrefix (p ++ k) p = k := by
  unfold stripKeyPrefix
  rw [if_pos ( isPrefixOf_iff_prefix.mpr (prefix_append p k)), drop_left]

/-! ## Commands in a namespace -/

/-- The table of `prefixKeyArgs` has the keys of the command where its case finds them, and the
command leaves nothing behind that writes later. -/
def Covered (p : Bytes) (args : List Bytes) : Prop :=
  AtOnce args = true ∧ ∀ w, Word.ofArgs args = some w → ∃ ka, w.keyArgs args = some ka ∧
    prefixKeyArgs args p = ka.rename (p ++ ·) args

/-- The cluster and the schemas make no difference between a name with the prefix and the name
without it, and neither does this command if it does not concern the store. -/
structure Env.Blind (p : Bytes) (env : Env) (args : List Bytes) : Prop where
  pull : env.pull (p ++ ·) = env
  admin : env.admin (prefixKeyArgs args p) = env.admin args

/-- The condition of a command of a client in a namespace. -/
structure Conn.Meets (p : Bytes) (conn : Conn) (call : ClientCall) : Prop where
  blind : ∀ args, args = call.args ∨ prefixKeyArgs args p ∈ conn.queue → call.env.Blind p args
  victims : call.node.victims = []
  syncs : ¬ Syncs call.args
  stays : toUpper (call.args.headD []) = bytes "NAMESPACE" →
    toUpper (call.args.getD 1 []) ≠ bytes "USE"
  unlisted : toUpper (call.args.headD []) ≠ bytes "RANDOMKEY" ∧
    toUpper (call.args.headD []) ≠ bytes "SCAN"
  unwatched : toUpper (call.args.headD []) ≠ bytes "WATCH"
  keys : toUpper (call.args.headD []) = bytes "KEYS" → conn.active = false ∧
    call.args.length = 2 ∧ call.args.getD 1 [] ≠ [] ∧ Literal p
  covered : toUpper (call.args.headD []) ≠ bytes "KEYS" → Covered p call.args

theorem Word.not_script (w : Word) {ka : KeyArgs}
    (hka : w.keyArgs args = some ka) : w ≠ .eval ∧ w ≠ .evalSha := by
  refine ⟨?_, ?_⟩
  · rintro rfl
    cases hka
  · rintro rfl
    cases hka

section
variable {p : Bytes} {base : Bytes → Entry} {node : Node} {env : Env} {args : List Bytes}
  {st st' : State}

/-- The counters of queue messages do not matter. -/
abbrev Stands (p : Bytes) (base : Bytes → Entry) (s t : Store) : Prop :=
  s.Mirrors (p ++ ·) base (fun _ _ => True) t

theorem ofArgs_prefixKeyArgs (args : List Bytes) (p : Bytes) :
    Word.ofArgs (prefixKeyArgs args p) = Word.ofArgs args := by
  unfold Word.ofArgs
  rw [headD_prefixKeyArgs]

theorem exec_of_noWord (env : Env) (st : State)
    (h : Word.ofArgs args = none) : exec env args st = (env.admin args, st) := by
  unfold exec execState expand execPlain
  rw [h]
  rw [foldl_cons, foldl_nil, h]

theorem exec_covered (hblind : env.Blind p args) (hcovered : Covered p args)
    (h : Stands p base st.store st'.store) :
    (exec env (prefixKeyArgs args p) st).1 = (exec env args st').1 ∧
      Stands p base (exec env (prefixKeyArgs args p) st).2.store (exec env args st').2.store := by
  have hword := ofArgs_prefixKeyArgs args p
  cases hw : Word.ofArgs args with
  | none =>
    -- an admin command, which the prefix must not reach
    rw [exec_of_noWord env st (hword.trans hw), exec_of_noWord env st' hw]
    exact ⟨hblind.admin, h⟩
  | some w =>
    obtain ⟨ka, hka, hargs⟩ := hcovered.2 w hw
    have heval : w ≠ .eval ∧ w ≠ .evalSha := w.not_script hka
    rw [exec_of_word (hword.trans hw) heval.1 heval.2, exec_of_word hw heval.1 heval.2, hargs]
    have hrenamed : (execWord env (ka.rename (p ++ ·) args) st w).1
          = (execWord (env.pull (p ++ ·)) args st' w).1 ∧
        Stands p base (execWord env (ka.rename (p ++ ·) args) st w).2.store
          (execWord (env.pull (p ++ ·)) args st' w).2.store :=
      execWord_renamed hka (append_right_injective p) h
    -- the environment answers for the names with the prefix as for those without it
    rw [hblind.pull] at hrenamed
    exact hrenamed

theorem runCommand_covered (hblind : env.Blind p args) (hvictims : node.victims = [])
    (hcovered : Covered p args) (h : Stands p base st.store st'.store) :
    (runCommand node env (prefixKeyArgs args p) st).1 = (runCommand node env args st').1 ∧
      Stands p base (runCommand node env (prefixKeyArgs args p) st).2.1.store
        (runCommand node env args st').2.1.store := by
  obtain ⟨hreply, hstore⟩ := exec_covered hblind hcovered h
  unfold runCommand execRespond
  rw [headD_prefixKeyArgs, hvictims]
  split
  · split
    · exact ⟨rfl, h⟩
    · cases node.oom with
      | some e => exact ⟨rfl, h⟩
      | none => exact ⟨congrArg respond hreply, hstore⟩
  · exact ⟨congrArg respond hreply, hstore⟩

theorem execQueue_covered {queue : List (List Bytes)} (hblind : ∀ args ∈ queue, env.Blind p args)
    (hcovered : ∀ args ∈ queue, Covered p args) (h : Stands p base st.store st'.store) :
    (execQueue env (queue.map (prefixKeyArgs · p)) st).1 = (execQueue env queue st').1 ∧
      Stands p base (execQueue env (queue.map (prefixKeyArgs · p)) st).2.store
        (execQueue env queue st').2.store := by
  induction queue generalizing st st' with
  | nil => exact ⟨rfl, h⟩
  | cons args rest ih =>
    obtain ⟨hreply, hstore⟩ := exec_covered (hblind args (.head _)) (hcovered args (.head _)) h
    obtain ⟨hrest, hend⟩ :=
      ih (fun q hq => hblind q (.tail _ hq)) (fun q hq => hcovered q (.tail _ hq)) hstore
    exact ⟨congrArg₂ (fun a b => respond a ++ b) hreply hrest, hend⟩

/-- The connection of the client, and the one it would have on a server of its own. -/
structure Conn.Stands (p : Bytes) (conn conn' : Conn) : Prop where
  nsPrefix : conn.nsPrefix = p
  nsPrefix' : conn'.nsPrefix = []
  active : conn.active = conn'.active
  queue : conn.queue = conn'.queue.map (prefixKeyArgs · p)
  covered : ∀ args ∈ conn'.queue, Covered p args
  watched : conn.watched = none
  watched' : conn'.watched = none

/-- The same reply, and the same afterwards. -/
structure Agree (p : Bytes) (base : Bytes → Entry) (r r' : List Out × Conn × State) : Prop where
  reply : r.1 = r'.1
  conn : r.2.1.Stands p r'.2.1
  store : Server.Stands p base r.2.2.store r'.2.2.store

variable {conn conn' : Conn}

theorem Conn.Stands.ended (h : conn.Stands p conn') :
    Conn.Stands p { conn with active := false, queue := [], watched := none }
      { conn' with active := false, queue := [], watched := none } :=
  ⟨h.nsPrefix, h.nsPrefix', rfl, rfl, nofun, rfl, rfl⟩

theorem dispatch_covered (hblind : env.Blind p args)
    (hqueue : ∀ q ∈ conn'.queue, env.Blind p q) (hvictims : node.victims = [])
    (hwatch : toUpper (args.headD []) ≠ bytes "WATCH") (hcovered : Covered p args)
    (hconn : conn.Stands p conn') (h : Stands p base st.store st'.store) :
    Agree p base (dispatch node env (prefixKeyArgs args p) conn st)
      (dispatch node env args conn' st') := by
  unfold dispatch
  dsimp only
  rw [headD_prefixKeyArgs, hconn.active]
  split
  · -- `MULTI`
    split
    · exact ⟨rfl, hconn, h⟩
    · exact ⟨rfl, ⟨hconn.nsPrefix, hconn.nsPrefix', rfl, rfl,
        nofun, hconn.watched, hconn.watched'⟩, h⟩
  split
  · -- `EXEC`: nothing is watched on either side
    rw [hconn.watched, hconn.watched', hconn.queue]
    split
    · exact ⟨rfl, hconn, h⟩
    · obtain ⟨hreplies, hstore⟩ := execQueue_covered hqueue hconn.covered h
      refine ⟨?_, hconn.ended, hstore⟩
      show Out.arrayLen (conn'.queue.map (prefixKeyArgs · p)).length :: _ = _
      rw [length_map, hreplies]
      rfl
  split
  · -- `DISCARD`
    split
    · exact ⟨rfl, hconn, h⟩
    · exact ⟨rfl, hconn.ended, h⟩
  split
  · -- `UNWATCH`
    exact ⟨rfl, ⟨hconn.nsPrefix, hconn.nsPrefix', rfl, hconn.queue, hconn.covered, rfl, rfl⟩, h⟩
  split
  · -- the command is queued
    refine ⟨rfl, ⟨hconn.nsPrefix, hconn.nsPrefix', rfl, ?_, ?_, hconn.watched, hconn.watched'⟩, h⟩
    · rw [hconn.queue, map_append]
      rfl
    · intro q hq
      rcases mem_append.mp hq with hq | hq
      · exact hconn.covered q hq
      · obtain rfl := mem_singleton.mp hq
        exact hcovered
  · obtain ⟨hreply, hstore⟩ := runCommand_covered hblind hvictims hcovered h
    exact ⟨hreply, hconn, hstore⟩

theorem dispatch_keys {word pattern : Bytes} (hcmd : toUpper word = bytes "KEYS")
    (hactive : conn'.active = false) : dispatch node env [word, pattern] conn' st'
      = (writeBulkStrings (st'.store.keys env.now pattern), conn', st') := by
  have hw : Word.ofArgs [word, pattern] = some (.store .keys) := by
    show Word.parse (toUpper word) = _
    rw [hcmd]
    decide +kernel
  have hexec : exec env [word, pattern] st'
      = (.ok (writeBulkStrings (st'.store.keys env.now pattern)), st') := by
    rw [exec_of_word hw (by decide) (by decide)]
    show (_, State.mk st'.store (st'.aof ++ []) st'.snapshot) = _
    rw [append_nil]
    rfl
  have hrun : runCommand node env [word, pattern] st'
      = (writeBulkStrings (st'.store.keys env.now pattern), st', none) := by
    unfold runCommand execRespond
    have hread : isWriteCommand (toUpper ([word, pattern].headD [])) = false := by
      show isWriteCommand (toUpper word) = false
      rw [hcmd]
      decide +kernel
    rw [hread, hexec]
    rfl
  have hhead : toUpper ([word, pattern].headD []) = bytes "KEYS" := hcmd
  unfold dispatch
  rw [hhead, if_neg (by decide), if_neg (by decide), if_neg (by decide), if_neg (by decide),
    if_neg (by decide), hactive, hrun]
  rfl

theorem namesIn_keys (hp : p ≠ []) (hliteral : Literal p) {word pattern : Bytes}
    (hcmd : toUpper word = bytes "KEYS") (hpattern : pattern ≠ [])
    (h : Stands p base st.store st'.store) :
    namesIn env p (bytes "KEYS") (prefixKeyArgs [word, pattern] p) st.store
      = writeBulkStrings (st'.store.keys env.now pattern) := by
  have hargs : prefixKeyArgs [word, pattern] p = [word, p ++ pattern] := by
    rw [prefixKeyArgs_eq hp]
    show (KeyArgs.of (toUpper word)).rename _ _ = _
    rw [hcmd, show KeyArgs.of (bytes "KEYS") = .first by decide +kernel, KeyArgs.rename_first]
  have hstrip : ((st'.store.keys env.now pattern).map (p ++ ·)).map (stripKeyPrefix · p)
      = st'.store.keys env.now pattern := by
    rw [map_map]
    exact (map_congr_left (fun k _ => stripKeyPrefix_append p k)).trans (map_id _)
  rw [hargs]
  show writeBulkStrings ((st.store.keys env.now (p ++ pattern)).map (stripKeyPrefix · p)) = _
  rw [h.keys hliteral hp hpattern, hstrip]

theorem handleCommand_meets (hp : p ≠ []) (hmeets : conn.Meets p call)
    (hconn : conn.Stands p conn') (h : Stands p base st.store st'.store) :
    Agree p base (handleCommand call.node call.env call.args conn st)
      (handleCommand call.node call.env call.args conn' st') := by
  unfold handleCommand
  dsimp only
  split
  · exact ⟨rfl, hconn, h⟩
  split
  · rename_i hsync
    exact absurd hsync hmeets.syncs
  split
  · -- `NAMESPACE`, but not `NAMESPACE USE`
    rename_i hns
    unfold namespaceCmd
    rw [if_pos (hmeets.stays hns), if_pos (hmeets.stays hns)]
    exact ⟨rfl, hconn, h⟩
  have hown : prefixKeyArgs call.args conn'.nsPrefix = call.args := by
    unfold prefixKeyArgs
    rw [if_pos hconn.nsPrefix']
  have hprivate : ¬ (conn'.nsPrefix ≠ [] ∧ (toUpper (call.args.headD []) = bytes "KEYS" ∨
      toUpper (call.args.headD []) = bytes "RANDOMKEY" ∨
      toUpper (call.args.headD []) = bytes "SCAN")) := fun hns => hns.1 hconn.nsPrefix'
  rw [hown, if_neg hprivate, hconn.nsPrefix]
  split
  · rename_i hnames
    have hcmd : toUpper (call.args.headD []) = bytes "KEYS" := by
      rcases hnames.2 with hkeys | hrandom | hscan
      · exact hkeys
      · exact absurd hrandom hmeets.unlisted.1
      · exact absurd hscan hmeets.unlisted.2
    obtain ⟨hactive, hlen, hpattern, hliteral⟩ := hmeets.keys hcmd
    obtain ⟨word, pattern, hargs⟩ := length_eq_two.mp hlen
    rw [hargs] at hcmd hpattern ⊢
    have hword : toUpper word = bytes "KEYS" := hcmd
    rw [hcmd, dispatch_keys hword (hconn.active ▸ hactive)]
    exact ⟨namesIn_keys hp hliteral hword hpattern h, hconn, h⟩
  · rename_i hnames
    have hcmd : toUpper (call.args.headD []) ≠ bytes "KEYS" :=
      fun hkeys => hnames ⟨hp, .inl hkeys⟩
    have hqueue : ∀ q ∈ conn'.queue, call.env.Blind p q :=
      fun q hq => hmeets.blind q (.inr (hconn.queue ▸ mem_map_of_mem hq))
    exact dispatch_covered (hmeets.blind _ (.inl rfl)) hqueue hmeets.victims hmeets.unwatched
      (hmeets.covered hcmd) hconn h

end

/-! ## Commands of other clients -/

section
variable {node : Node} {env : Env} {args : List Bytes} {conn : Conn} {st : State} {k : Bytes}

/-- The commands that one round of the loop runs. -/
def Conn.commands (conn : Conn) (args : List Bytes) : List (List Bytes) :=
  if toUpper (args.headD []) = bytes "EXEC" then conn.queue
  else [prefixKeyArgs args conn.nsPrefix]

/-- The condition of a command of another client: it names no key of the namespace. -/
structure Conn.Leaves (p : Bytes) (st : State) (conn : Conn) (call : ClientCall) : Prop where
  victims : ∀ v ∈ call.node.victims, ¬ p <+: v
  syncs : Syncs call.args → ∀ k, p <+: k → (st.store.entries k).expired call.env.now = false
  commands : ∀ args ∈ conn.commands call.args, ∀ k, p <+: k →
    Spares call.env args k (st.store.entries k)

theorem handleCommand_leaves (hs : st.store.Idle) (h : conn.Leaves p st call) (hk : p <+: k) :
    Spared k st.store (handleCommand call.node call.env call.args conn st).2.2.store := by
  have hexec : ∀ args ∈ conn.commands call.args, ∀ t : State, Spared k st.store t.store →
      Spared k st.store (exec call.env args t).2.store := by
    intro args hargs t ht
    have hspares : Spares call.env args k (t.store.entries k) := by
      rw [ht.entry]
      exact h.commands args hargs k hk
    exact ht.trans (exec_spared ht.idle hspares)
  unfold Conn.commands at hexec
  refine handleCommand_invariant (P := fun t => Spared k st.store t.store) (.refl hs)
    (fun hsync => .purgeExpired hs call.env.hint (h.syncs hsync k hk)) ?_ ?_
  · intro hcmd _
    rw [if_pos hcmd] at hexec
    exact execQueue_invariant (P := fun t => Spared k st.store t.store) (.refl hs) hexec
  · intro hcmd _
    rw [if_neg hcmd] at hexec
    exact runCommand_invariant (P := fun t => Spared k st.store t.store) (.refl hs)
      (fun _ => .evict hs (fun hmem => h.victims k hmem hk)) (fun _ => hexec _ (.head _))

theorem handleCommand_idle (node : Node) (env : Env) (args : List Bytes) (conn : Conn)
    (hs : st.store.Idle) : (handleCommand node env args conn st).2.2.store.Idle := by
  have hexec : ∀ args (t : State), t.store.Idle → (exec env args t).2.store.Idle :=
    fun _ _ ht => exec_invariant (P := fun st => st.store.Idle) ht
      (fun _ _ _ _ _ hs => execWord_idle hs)
  exact handleCommand_invariant (P := fun t => t.store.Idle) hs
    (fun _ => Spared.purgeExpired_idle env.hint hs)
    (fun _ _ => execQueue_invariant (P := fun t => t.store.Idle) hs (fun q _ => hexec q))
    (fun _ _ => runCommand_invariant (P := fun t => t.store.Idle) hs
      (fun _ => Spared.evict_idle node.victims hs) (fun _ => hexec _))

end

/-! ## Other namespaces -/

/-- A client in a namespace, the others, and what the client has sent and got back. -/
structure Tenants where
  st : State
  conn : Conn
  others : Nat → Conn
  calls : List ClientCall
  replies : List (List Out)

/-- A command of the client, or of another one. -/
inductive TenantStep where
  | own (call : ClientCall)
  | other (i : Nat) (call : ClientCall)

namespace Tenants

/-- The client has sent `NAMESPACE USE n`. -/
def start (n : Bytes) (others : Nat → Conn) (st : State) : Tenants :=
  ⟨st, { Conn.new with nsPrefix := nsPrefixOf n, currentNS := n }, others, [], []⟩

def step (x : Tenants) : TenantStep → Option Tenants
  | .own call =>
    let (out, conn, st) := handleCommand call.node call.env call.args x.conn x.st
    some { x with st := st, conn := conn, calls := x.calls ++ [call], replies := x.replies ++ [out] }
  | .other i call =>
    let (_, conn, st) := handleCommand call.node call.env call.args (x.others i) x.st
    some { x with st := st, others := Function.update x.others i conn }

/-- The condition of a step. -/
def Meets (n : Bytes) (x : Tenants) : TenantStep → Prop
  | .own call => x.conn.Meets (nsPrefixOf n) call
  | .other i call => (x.others i).Leaves (nsPrefixOf n) x.st call

end Tenants

/-- One more command on a server of its own. -/
def aloneStep (r : List (List Out) × Conn × State) (call : ClientCall) :
    List (List Out) × Conn × State :=
  let (out, conn, st) := handleCommand call.node call.env call.args r.2.1 r.2.2
  (r.1 ++ [out], conn, st)

/-- The client's commands, without a namespace, on a server where nobody else is. -/
def alone (calls : List ClientCall) : List (List Out) × Conn × State :=
  calls.foldl aloneStep ([], Conn.new, State.new)

/-- What holds along a run. -/
structure Tenants.Isolated (n : Bytes) (x : Tenants) : Prop where
  idle : x.st.store.Idle
  replies : x.replies = (alone x.calls).1
  conn : x.conn.Stands (nsPrefixOf n) (alone x.calls).2.1
  store : Stands (nsPrefixOf n) x.st.store.entries x.st.store (alone x.calls).2.2.store

theorem Stands.rebase {base : Bytes → Entry} {s t : Store} (h : Stands p base s t) :
    Stands p s.entries s t :=
  ⟨h.inside, fun _ _ => rfl, h.idle, h.idle', trivial⟩

namespace Tenants.Isolated

variable {n : Bytes} {x : Tenants} {call : ClientCall}

theorem own (h : x.Isolated n) (hmeets : x.conn.Meets (nsPrefixOf n) call) :
    Agree (nsPrefixOf n) x.st.store.entries (handleCommand call.node call.env call.args x.conn x.st)
      (handleCommand call.node call.env call.args (alone x.calls).2.1 (alone x.calls).2.2) :=
  handleCommand_meets (nsPrefixOf_ne_nil n) hmeets h.conn h.store

theorem step {y : Tenants} {a : TenantStep} (h : x.Isolated n) (hmeets : x.Meets n a)
    (hstep : x.step a = some y) : y.Isolated n := by
  cases a with
  | own call =>
    cases hstep
    have hagree := h.own hmeets
    have halone : alone (x.calls ++ [call]) = aloneStep (alone x.calls) call := by
      unfold alone
      rw [foldl_append]
      rfl
    refine ⟨handleCommand_idle _ _ _ _ h.idle, ?_, ?_, ?_⟩
    · show x.replies ++ [(handleCommand call.node call.env call.args x.conn x.st).1]
        = (alone (x.calls ++ [call])).1
      rw [halone, h.replies, hagree.reply]
      rfl
    · rw [halone]
      exact hagree.conn
    · rw [halone]
      exact hagree.store.rebase
  | other i call =>
    cases hstep
    have hspared : ∀ j, Spared (nsPrefixOf n ++ j) x.st.store
        (handleCommand call.node call.env call.args (x.others i) x.st).2.2.store :=
      fun j => handleCommand_leaves h.idle hmeets (prefix_append _ j)
    refine ⟨(hspared []).idle, h.replies, h.conn, ?_⟩
    exact ⟨fun j => ((hspared j).entry).trans (h.store.inside j), fun _ _ => rfl,
      fun j => (hspared j).idle _, h.store.idle', trivial⟩

end Tenants.Isolated

end Vole.Server
