import Vole.Server.Propagation

/-!
# A client's connection

The loop of `handleConn`: what it does with a command before `exec` sees it. A command of a
client in a namespace has its key arguments prefixed by a table of words, and `KEYS`,
`RANDOMKEY` and `SCAN` are answered here with the prefix taken off again. `MULTI` queues
commands, and `EXEC` runs them without the checks that a single command passes: whether the
node is a read-only replica, and whether keys have to be evicted.
-/

namespace Vole.Server

open Go

/-! ## Namespaces -/

/-- Which arguments of a command `prefixKeyArgs` takes for keys. -/
inductive KeyArgs where
  | first
  | firstTwo
  | all
  | alternate
  | allButLast
  | fromSecond
  | none
  deriving DecidableEq

/-- The words of `prefixKeyArgs` whose first argument alone is a key. -/
def firstKeyWords : List String :=
  ["GET", "SET", "SETNX", "SETEX", "PSETEX", "TYPE", "TTL", "PTTL",
    "EXPIRE", "PEXPIRE", "EXPIREAT", "PEXPIREAT",
    "PERSIST", "INCR", "INCRBY", "DECR", "DECRBY", "INCRBYFLOAT",
    "STRLEN", "APPEND", "GETDEL", "GETSET", "GETEX", "GETRANGE", "SETRANGE",
    "RATELIMIT", "RATELIMIT.PEEK", "RATELIMIT.RESET", "SETDELAYED",
    "HSET", "HGET", "HGETALL", "HDEL", "HLEN", "HEXISTS", "HKEYS", "HVALS",
    "HINCRBY", "HINCRBYFLOAT", "HSETNX", "HMSET", "HMGET",
    "LPUSH", "RPUSH", "LPUSHX", "RPUSHX", "LPOP", "RPOP",
    "LRANGE", "LLEN", "LINDEX", "LSET", "LINSERT", "LPOS",
    "SADD", "SREM", "SMEMBERS", "SISMEMBER", "SCARD", "SRANDMEMBER", "SPOP",
    "ZADD", "ZRANGE", "ZRANGEBYSCORE", "ZREVRANGEBYSCORE", "ZREVRANGE",
    "ZREM", "ZSCORE", "ZCARD", "ZRANK", "ZREVRANK", "ZCOUNT",
    "ZINCRBY", "ZLEXCOUNT", "ZRANGEBYLEX",
    "XADD", "XRANGE", "XREVRANGE", "XLEN", "XREAD",
    "SETBIT", "GETBIT", "BITCOUNT", "BITPOS",
    "PFADD", "PFCOUNT",
    "GEOADD", "GEOPOS", "GEODIST", "GEOSEARCH",
    "OBJECT", "EXPIRETIME", "PEXPIRETIME", "TOUCH", "UNLINK",
    "SORT", "DUMP", "RESTORE", "DEBUG", "KEYS"]

/-- The switch of `prefixKeyArgs`. -/
def KeyArgs.of (cmd : Bytes) : KeyArgs :=
  if firstKeyWords.any (fun w => cmd = bytes w) then .first
  else if ["DEL", "EXISTS", "MGET", "SINTER", "SUNION", "SDIFF", "SINTERSTORE", "SUNIONSTORE",
      "SDIFFSTORE", "PFMERGE"].any (fun w => cmd = bytes w) then .all
  else if ["MSET", "MSETNX"].any (fun w => cmd = bytes w) then .alternate
  else if ["RENAME", "RENAMENX", "COPY", "RPOPLPUSH", "LMOVE", "SMOVE"].any
      (fun w => cmd = bytes w) then .firstTwo
  else if ["BLPOP", "BRPOP"].any (fun w => cmd = bytes w) then .allButLast
  else if cmd = bytes "BITOP" then .fromSecond
  else .none

/-- Whether the `i`th of `n` arguments is taken for a key; the word is at index `0`. -/
def KeyArgs.isKey (n i : Nat) : KeyArgs → Bool
  | .first => i = 1
  | .firstTwo => i = 1 ∨ i = 2
  | .all => 1 ≤ i
  | .alternate => i % 2 = 1
  | .allButLast => 1 ≤ i ∧ i + 1 < n
  | .fromSecond => 2 ≤ i
  | .none => false

def prefixKeyArgs (args : List Bytes) (pre : Bytes) : List Bytes :=
  if pre = [] then args
  else args.mapIdx (fun i a =>
    if (KeyArgs.of (toUpper (args.headD []))).isKey args.length i then pre ++ a else a)

theorem headD_prefixKeyArgs (args : List Bytes) (pre : Bytes) :
    (prefixKeyArgs args pre).headD [] = args.headD [] := by
  unfold prefixKeyArgs
  split
  · rfl
  · cases args with
    | nil => rfl
    | cons word rest =>
      rw [List.mapIdx_cons]
      show (if _ then pre ++ word else word) = word
      rw [if_neg]
      cases KeyArgs.of (toUpper ((word :: rest).headD [])) <;> simp [KeyArgs.isKey]

def stripKeyPrefix (key pre : Bytes) : Bytes :=
  if pre.isPrefixOf key then key.drop pre.length else key

/-! ## The connection -/

/-- The variables of `handleConn`, for a client that is authenticated. -/
structure Conn where
  currentNS : Bytes
  nsPrefix : Bytes
  /-- `tx.active`, `tx.queue` and `tx.watched` -/
  active : Bool
  queue : List (List Bytes)
  watched : Option (List (Bytes × Nat))

def Conn.new : Conn := ⟨bytes "default", [], false, [], none⟩

/-- What `handleConn` reads of the server besides the store: the role, the namespaces, and what
`EvictIfNeeded` comes to. -/
structure Node where
  isReplica : Bool
  multiMaster : Bool
  namespaces : List Bytes
  /-- the keys that are evicted -/
  victims : List Bytes
  /-- the error if that was not enough -/
  oom : Option Bytes

/-- A leader without a memory limit. -/
def Node.leader (namespaces : List Bytes) : Node := ⟨false, false, namespaces, [], none⟩

/-- A follower. -/
def Node.follower : Node := ⟨true, false, [], [], none⟩

/-- What the client reads: an error that `exec` returns is written here. -/
def respond : Reply → List Out
  | .error e => [.error (bytes "ERR " ++ e)]
  | .ok out => out

/-- `s.exec(wr, args)`, with its error. -/
def execRespond (env : Env) (args : List Bytes) (st : State) : List Out × State :=
  let (reply, st) := exec env args st
  (respond reply, st)

/-- The default case, outside a transaction. The last component is what is handed to
`PropagateToReplicas` and to the peers. -/
def runCommand (node : Node) (env : Env) (args : List Bytes) (st : State) :
    List Out × State × Option (List Bytes) :=
  if isWriteCommand (toUpper (args.headD [])) then
    if node.isReplica && !node.multiMaster then
      ([.error (bytes "READONLY You can't write against a read only replica")], st, none)
    else
      let st := { st with store := st.store.evict node.victims }
      match node.oom with
      | some e => ([.error (bytes "OOM " ++ e)], st, none)
      | none =>
        let (reply, st) := exec env args st
        (respond reply, st, if propagated args reply then some args else none)
  else
    let (out, st) := execRespond env args st
    (out, st, none)

/-- The loop of `execTransaction`. -/
def execQueue (env : Env) : List (List Bytes) → State → List Out × State
  | [], st => ([], st)
  | args :: rest, st =>
    let (out, st) := execRespond env args st
    let (outs, st) := execQueue env rest st
    (out ++ outs, st)

def execTransaction (env : Env) (commands : List (List Bytes)) (st : State) : List Out × State :=
  let (outs, st) := execQueue env commands st
  (.arrayLen commands.length :: outs, st)

/-- `NAMESPACE USE`; the other subcommands do not concern the connection. -/
def namespaceCmd (node : Node) (env : Env) (args : List Bytes) (conn : Conn) : List Out × Conn :=
  if toUpper (args.getD 1 []) ≠ bytes "USE" then (respond (env.admin args), conn)
  else if args.length ≠ 3 then
    ([.error (bytes "ERR wrong number of arguments for NAMESPACE USE")], conn)
  else
    let name := args.getD 2 []
    if name = bytes "default" then
      ([.simple (bytes "OK")], { conn with nsPrefix := [], currentNS := bytes "default" })
    else if name ∈ node.namespaces then
      ([.simple (bytes "OK")], { conn with nsPrefix := name ++ bytes ":", currentNS := name })
    else ([.error (bytes "ERR namespace does not exist")], conn)

/-- The loop of `SCAN` in a namespace over its options; unknown words are skipped. -/
def parseScanIn : Bytes × Int → List Bytes → Except Bytes (Bytes × Int)
  | o, [] => .ok o
  | _, [_] => .error (bytes "ERR syntax error")
  | o, opt :: value :: rest =>
    if toUpper opt = bytes "MATCH" then parseScanIn (value, o.2) rest
    else if toUpper opt = bytes "COUNT" then
      match parseInt value with
      | none => .error (bytes "ERR value is not an integer or out of range")
      | some n => parseScanIn (o.1, n) rest
    else parseScanIn o rest

/-- `KEYS`, `RANDOMKEY` and `SCAN` in a namespace, given the prefixed arguments. -/
def namesIn (env : Env) (pre cmd : Bytes) (args : List Bytes) (s : Store) : List Out :=
  if cmd = bytes "KEYS" then
    if args.length ≠ 2 then [.error (bytes "ERR wrong number of arguments for 'keys' command")]
    else writeBulkStrings ((s.keys env.now (args.getD 1 [])).map (stripKeyPrefix · pre))
  else if cmd = bytes "RANDOMKEY" then
    if args.length ≠ 1 then
      [.error (bytes "ERR wrong number of arguments for 'randomkey' command")]
    else
      match s.keys env.now (pre ++ bytes "*") with
      | [] => [.null]
      | key :: _ => [.bulk (stripKeyPrefix key pre)]
  else if args.length < 2 then
    [.error (bytes "ERR wrong number of arguments for 'scan' command")]
  else
    match parseInt (args.getD 1 []) with
    | none => [.error (bytes "ERR invalid cursor")]
    | some cursor =>
      match parseScanIn (bytes "*", 10) (args.drop 2) with
      | .error e => [.error e]
      | .ok o =>
        match s.scan env.now cursor o.2 o.1 with
        | .error e => respond (.error (e.text env.R))
        | .ok (next, keys) => Cmd.writeScan (next, keys.map (stripKeyPrefix · pre))

/-- The words that `handleConn` answers by itself. -/
def sessionWords : List String :=
  ["AUTH", "SUBSCRIBE", "PSUBSCRIBE", "UNSUBSCRIBE", "PUNSUBSCRIBE", "QUIT", "CLIENT"]

/-- The switch over the words of transactions, given the prefixed arguments. -/
def dispatch (node : Node) (env : Env) (args : List Bytes) (conn : Conn) (st : State) :
    List Out × Conn × State :=
  let cmd := toUpper (args.headD [])
  let ended := { conn with active := false, queue := [], watched := none }
  if cmd = bytes "MULTI" then
    if conn.active then ([.error (bytes "ERR MULTI calls can not be nested")], conn, st)
    else ([.simple (bytes "OK")], { conn with active := true, queue := [] }, st)
  else if cmd = bytes "EXEC" then
    if !conn.active then ([.error (bytes "ERR EXEC without MULTI")], conn, st)
    else if (conn.watched.map st.store.keysModifiedSince).getD false then
      ([.nullArray], ended, st)
    else
      let (out, st) := execTransaction env conn.queue st
      (out, ended, st)
  else if cmd = bytes "DISCARD" then
    if !conn.active then ([.error (bytes "ERR DISCARD without MULTI")], conn, st)
    else ([.simple (bytes "OK")], ended, st)
  else if cmd = bytes "WATCH" then
    if conn.active then ([.error (bytes "ERR WATCH inside MULTI is not allowed")], conn, st)
    else if args.length < 2 then
      ([.error (bytes "ERR wrong number of arguments for WATCH")], conn, st)
    else
      let versions := args.tail.map (fun k => (k, st.store.keyVersionOf k))
      let kept := (conn.watched.getD []).filter (fun v => v.1 ∉ args.tail)
      ([.simple (bytes "OK")], { conn with watched := some (kept ++ versions) }, st)
  else if cmd = bytes "UNWATCH" then ([.simple (bytes "OK")], { conn with watched := none }, st)
  else if conn.active then
    ([.simple (bytes "QUEUED")], { conn with queue := conn.queue ++ [args] }, st)
  else
    let (out, st, _) := runCommand node env args st
    (out, conn, st)

/-- One round of the loop of `handleConn`. -/
def handleCommand (node : Node) (env : Env) (args : List Bytes) (conn : Conn) (st : State) :
    List Out × Conn × State :=
  let cmd := toUpper (args.headD [])
  if sessionWords.any (fun w => cmd = bytes w) then (respond (env.admin args), conn, st)
  else if cmd = bytes "REPLSYNC" ∨ (cmd = bytes "REPLPEER" ∧ args.length = 3) then
    -- the snapshot is streamed, and the connection becomes that of a replica
    ([], conn, { st with store := (st.store.dump env.R env.now env.hint).2 })
  else if cmd = bytes "NAMESPACE" then
    let (out, conn) := namespaceCmd node env args conn
    (out, conn, st)
  else
    let args := prefixKeyArgs args conn.nsPrefix
    if conn.nsPrefix ≠ [] ∧ (cmd = bytes "KEYS" ∨ cmd = bytes "RANDOMKEY" ∨ cmd = bytes "SCAN") then
      (namesIn env conn.nsPrefix cmd args st.store, conn, st)
    else dispatch node env args conn st

/-- A command of a client, and what the server is like when it comes. -/
structure ClientCall where
  node : Node
  env : Env
  args : List Bytes

/-! ## What a round keeps -/

section
variable {P : State → Prop} {node : Node} {env : Env} {args : List Bytes} {conn : Conn} {st : State}

/-- `REPLSYNC`, or `REPLPEER` with its two arguments. -/
def Syncs (args : List Bytes) : Prop :=
  toUpper (args.headD []) = bytes "REPLSYNC" ∨
    (toUpper (args.headD []) = bytes "REPLPEER" ∧ args.length = 3)

instance (args : List Bytes) : Decidable (Syncs args) := inferInstanceAs (Decidable (_ ∨ _))

theorem execQueue_invariant {queue : List (List Bytes)} (hst : P st)
    (h : ∀ q ∈ queue, ∀ st, P st → P (exec env q st).2) : P (execQueue env queue st).2 := by
  induction queue generalizing st with
  | nil => exact hst
  | cons q rest ih => exact ih (h q (.head _) st hst) (fun q hq => h q (.tail _ hq))

/-- What a single command keeps: past the gate, keys may be evicted first. -/
theorem runCommand_invariant (hst : P st)
    (hevict : (node.isReplica && !node.multiMaster) = false →
      P { st with store := st.store.evict node.victims })
    (hexec : (isWriteCommand (toUpper (args.headD [])) = true →
      (node.isReplica && !node.multiMaster) = false) → ∀ st, P st → P (exec env args st).2) :
    P (runCommand node env args st).2.1 := by
  unfold runCommand
  split
  · split
    · exact hst
    · rename_i hgate
      rw [Bool.not_eq_true] at hgate
      split
      · exact hevict hgate
      · exact hexec (fun _ => hgate) _ (hevict hgate)
  · exact hexec (fun hwrite => absurd hwrite ‹_›) st hst

/-- What one round of the loop keeps: it streams the snapshot, runs the queue, runs one command,
or leaves the server alone. -/
theorem handleCommand_invariant (hst : P st)
    (hsync : Syncs args → P { st with store := (st.store.dump env.R env.now env.hint).2 })
    (hqueue : toUpper (args.headD []) = bytes "EXEC" → conn.active = true →
      P (execQueue env conn.queue st).2)
    (hrun : toUpper (args.headD []) ≠ bytes "EXEC" → conn.active = false →
      P (runCommand node env (prefixKeyArgs args conn.nsPrefix) st).2.1) :
    P (handleCommand node env args conn st).2.2 := by
  unfold handleCommand
  dsimp only
  split
  · exact hst
  split
  · exact hsync ‹_›
  split
  · exact hst
  split
  · exact hst
  unfold dispatch
  dsimp only
  rw [headD_prefixKeyArgs]
  split
  · -- `MULTI`
    split <;> exact hst
  split
  · -- `EXEC`
    cases hactive : conn.active with
    | false => exact hst
    | true =>
      rw [if_neg (by decide)]
      split
      · exact hst
      · exact hqueue ‹_› hactive
  rename_i hexec
  split
  · -- `DISCARD`
    split <;> exact hst
  split
  · -- `WATCH`
    split
    · exact hst
    split <;> exact hst
  split
  · exact hst
  cases hactive : conn.active with
  | true => exact hst
  | false => exact hrun hexec hactive

end

end Vole.Server
