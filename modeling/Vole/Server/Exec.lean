import Vole.Server.StoreCommands

/-!
# `Server.exec`

The switch of `Server.exec` and its effect on the store, the append-only file and the
snapshot file. Commands that have no hold on the store (`PING`, `CONFIG`, `CLUSTER`, ...) and
unknown words are answered by the environment.
-/

namespace Vole.Server

open Go

/-! ## Words -/

/-- The words whose case works on the key in the first argument. -/
inductive KeyWord where
  | get | set | setNX | setEX | pSetEX | type | incr | incrBy | decrBy | decr | incrByFloat
  | expire | pExpire | ttl | pttl | hSet | hGet | hGetAll | hDel | hIncrBy | hSetNX | lPop
  | rPop | lRange | lIndex | lSet | lInsert | lPos | lRem | sAdd | sRem | sMembers
  | sIsMember | sCard | sRandMember | sPop | zAdd | zRange | zRem | zScore | zCard | xAdd
  | xRange | xAck | pfAdd | dump | persist | pExpireAt | strlen | append | getDel | setBit
  | getBit | bitCount | bitPos | lLen | hLen | hExists | zRangeByScore | zRevRange | zRank
  | zRevRank | zCount | zPopMin | zPopMax | zIncrBy | zRangeByLex | geoAdd | geoPos
  | geoDist | geoSearch | xLen | getSet | getEx | setRange | getRange | substr | expireTime
  | pExpireTime | hVals | hKeys | hRandField | rateLimit | rateLimitPeek | rateLimitReset
  | setDelayed | dequeue | qAck | qNack | qPeek | qLen | qInfo | qDead | jsonSet | jsonGet
  | jsonDel | jsonType | jsonNumIncrBy | jsonArrAppend | jsonArrLen | jsonKeys | tag
  | tagGet | tagDel | tsAdd | tsRange | tsGet | tsInfo | xClaim | xAutoClaim | xPending
  | xTrim
  deriving DecidableEq

/-- The words whose case works on several keys or on the whole store. -/
inductive StoreWord where
  | mGet | mSet | exists_ | keys | scan | del | hSearch | lPush | rPush | sMove | xRead
  | xGroup | xReadGroup | pfCount | pfMerge | info | dbSize | rename | randomKey | object
  | bitOp | sInter | sUnion | sDiff | bLPop | bRPop | copy | mSetNX | sort | touch | unlink
  | sInterCard | sInterStore | sUnionStore | sDiffStore | rPopLPush | lMove | memory
  | enqueue | tagQuery | tsDownsample | xInfo
  deriving DecidableEq

/-- The words of the switch that have to do with the store. -/
inductive Word where
  | key (w : KeyWord)
  | store (w : StoreWord)
  | flushDB
  | flushAll
  | save
  | bgSave
  | eval
  | evalSha
  deriving DecidableEq

namespace KeyWord

def all : List KeyWord := (List.range 112).map KeyWord.ofNat

/-- The text of the word, and the case it selects. -/
def switch : KeyWord → String × KeyCmd
  | .get => ("GET", Cmd.get)
  | .set => ("SET", Cmd.set)
  | .setNX => ("SETNX", Cmd.setNX)
  | .setEX => ("SETEX", Cmd.setEX)
  | .pSetEX => ("PSETEX", Cmd.pSetEX)
  | .type => ("TYPE", Cmd.type)
  | .incr => ("INCR", Cmd.incr)
  | .incrBy => ("INCRBY", Cmd.incrBy)
  | .decrBy => ("DECRBY", Cmd.decrBy)
  | .decr => ("DECR", Cmd.decr)
  | .incrByFloat => ("INCRBYFLOAT", Cmd.incrByFloat)
  | .expire => ("EXPIRE", Cmd.expire)
  | .pExpire => ("PEXPIRE", Cmd.pExpire)
  | .ttl => ("TTL", Cmd.ttl)
  | .pttl => ("PTTL", Cmd.pttl)
  | .hSet => ("HSET", Cmd.hSet)
  | .hGet => ("HGET", Cmd.hGet)
  | .hGetAll => ("HGETALL", Cmd.hGetAll)
  | .hDel => ("HDEL", Cmd.hDel)
  | .hIncrBy => ("HINCRBY", Cmd.hIncrBy)
  | .hSetNX => ("HSETNX", Cmd.hSetNX)
  | .lPop => ("LPOP", Cmd.lPop)
  | .rPop => ("RPOP", Cmd.rPop)
  | .lRange => ("LRANGE", Cmd.lRange)
  | .lIndex => ("LINDEX", Cmd.lIndex)
  | .lSet => ("LSET", Cmd.lSet)
  | .lInsert => ("LINSERT", Cmd.lInsert)
  | .lPos => ("LPOS", Cmd.lPos)
  | .lRem => ("LREM", Cmd.lRem)
  | .sAdd => ("SADD", Cmd.sAdd)
  | .sRem => ("SREM", Cmd.sRem)
  | .sMembers => ("SMEMBERS", Cmd.sMembers)
  | .sIsMember => ("SISMEMBER", Cmd.sIsMember)
  | .sCard => ("SCARD", Cmd.sCard)
  | .sRandMember => ("SRANDMEMBER", Cmd.sRandMember)
  | .sPop => ("SPOP", Cmd.sPop)
  | .zAdd => ("ZADD", Cmd.zAdd)
  | .zRange => ("ZRANGE", Cmd.zRange)
  | .zRem => ("ZREM", Cmd.zRem)
  | .zScore => ("ZSCORE", Cmd.zScore)
  | .zCard => ("ZCARD", Cmd.zCard)
  | .xAdd => ("XADD", Cmd.xAdd)
  | .xRange => ("XRANGE", Cmd.xRange)
  | .xAck => ("XACK", Cmd.xAck)
  | .pfAdd => ("PFADD", Cmd.pfAdd)
  | .dump => ("DUMP", Cmd.dump)
  | .persist => ("PERSIST", Cmd.persist)
  | .pExpireAt => ("PEXPIREAT", Cmd.pExpireAt)
  | .strlen => ("STRLEN", Cmd.strlen)
  | .append => ("APPEND", Cmd.append)
  | .getDel => ("GETDEL", Cmd.getDel)
  | .setBit => ("SETBIT", Cmd.setBit)
  | .getBit => ("GETBIT", Cmd.getBit)
  | .bitCount => ("BITCOUNT", Cmd.bitCount)
  | .bitPos => ("BITPOS", Cmd.bitPos)
  | .lLen => ("LLEN", Cmd.lLen)
  | .hLen => ("HLEN", Cmd.hLen)
  | .hExists => ("HEXISTS", Cmd.hExists)
  | .zRangeByScore => ("ZRANGEBYSCORE", Cmd.zRangeByScore)
  | .zRevRange => ("ZREVRANGE", Cmd.zRevRange)
  | .zRank => ("ZRANK", Cmd.zRank)
  | .zRevRank => ("ZREVRANK", Cmd.zRevRank)
  | .zCount => ("ZCOUNT", Cmd.zCount)
  | .zPopMin => ("ZPOPMIN", Cmd.zPopMin)
  | .zPopMax => ("ZPOPMAX", Cmd.zPopMax)
  | .zIncrBy => ("ZINCRBY", Cmd.zIncrBy)
  | .zRangeByLex => ("ZRANGEBYLEX", Cmd.zRangeByLex)
  | .geoAdd => ("GEOADD", Cmd.geoAdd)
  | .geoPos => ("GEOPOS", Cmd.geoPos)
  | .geoDist => ("GEODIST", Cmd.geoDist)
  | .geoSearch => ("GEOSEARCH", Cmd.geoSearch)
  | .xLen => ("XLEN", Cmd.xLen)
  | .getSet => ("GETSET", Cmd.getSet)
  | .getEx => ("GETEX", Cmd.getEx)
  | .setRange => ("SETRANGE", Cmd.setRange)
  | .getRange => ("GETRANGE", Cmd.getRange)
  | .substr => ("SUBSTR", Cmd.substr)
  | .expireTime => ("EXPIRETIME", Cmd.expireTime)
  | .pExpireTime => ("PEXPIRETIME", Cmd.pExpireTime)
  | .hVals => ("HVALS", Cmd.hVals)
  | .hKeys => ("HKEYS", Cmd.hKeys)
  | .hRandField => ("HRANDFIELD", Cmd.hRandField)
  | .rateLimit => ("RATELIMIT", Cmd.rateLimit)
  | .rateLimitPeek => ("RATELIMIT.PEEK", Cmd.rateLimitPeek)
  | .rateLimitReset => ("RATELIMIT.RESET", Cmd.rateLimitReset)
  | .setDelayed => ("SETDELAYED", Cmd.setDelayed)
  | .dequeue => ("DEQUEUE", Cmd.dequeue)
  | .qAck => ("QACK", Cmd.qAck)
  | .qNack => ("QNACK", Cmd.qNack)
  | .qPeek => ("QPEEK", Cmd.qPeek)
  | .qLen => ("QLEN", Cmd.qLen)
  | .qInfo => ("QINFO", Cmd.qInfo)
  | .qDead => ("QDEAD", Cmd.qDead)
  | .jsonSet => ("JSON.SET", Cmd.jsonSet)
  | .jsonGet => ("JSON.GET", Cmd.jsonGet)
  | .jsonDel => ("JSON.DEL", Cmd.jsonDel)
  | .jsonType => ("JSON.TYPE", Cmd.jsonType)
  | .jsonNumIncrBy => ("JSON.NUMINCRBY", Cmd.jsonNumIncrBy)
  | .jsonArrAppend => ("JSON.ARRAPPEND", Cmd.jsonArrAppend)
  | .jsonArrLen => ("JSON.ARRLEN", Cmd.jsonArrLen)
  | .jsonKeys => ("JSON.KEYS", Cmd.jsonKeys)
  | .tag => ("TAG", Cmd.tag)
  | .tagGet => ("TAGGET", Cmd.tagGet)
  | .tagDel => ("TAGDEL", Cmd.tagDel)
  | .tsAdd => ("TS.ADD", Cmd.tsAdd)
  | .tsRange => ("TS.RANGE", Cmd.tsRange)
  | .tsGet => ("TS.GET", Cmd.tsGet)
  | .tsInfo => ("TS.INFO", Cmd.tsInfo)
  | .xClaim => ("XCLAIM", Cmd.xClaim)
  | .xAutoClaim => ("XAUTOCLAIM", Cmd.xAutoClaim)
  | .xPending => ("XPENDING", Cmd.xPending)
  | .xTrim => ("XTRIM", Cmd.xTrim)

def text (w : KeyWord) : String := w.switch.1

def cmd (w : KeyWord) : KeyCmd := w.switch.2

end KeyWord

namespace StoreWord

def all : List StoreWord := (List.range 42).map StoreWord.ofNat

/-- The text of the word, and the case it selects. -/
def switch : StoreWord → String × Cmd.StoreCmd
  | .mGet => ("MGET", Cmd.mGet)
  | .mSet => ("MSET", Cmd.mSet)
  | .exists_ => ("EXISTS", Cmd.exists_)
  | .keys => ("KEYS", Cmd.keys)
  | .scan => ("SCAN", Cmd.scan)
  | .del => ("DEL", Cmd.del)
  | .hSearch => ("HSEARCH", Cmd.hSearch)
  | .lPush => ("LPUSH", Cmd.lPush)
  | .rPush => ("RPUSH", Cmd.rPush)
  | .sMove => ("SMOVE", Cmd.sMove)
  | .xRead => ("XREAD", Cmd.xRead)
  | .xGroup => ("XGROUP", Cmd.xGroup)
  | .xReadGroup => ("XREADGROUP", Cmd.xReadGroup)
  | .pfCount => ("PFCOUNT", Cmd.pfCount)
  | .pfMerge => ("PFMERGE", Cmd.pfMerge)
  | .info => ("INFO", Cmd.info)
  | .dbSize => ("DBSIZE", Cmd.dbSize)
  | .rename => ("RENAME", Cmd.rename)
  | .randomKey => ("RANDOMKEY", Cmd.randomKey)
  | .object => ("OBJECT", Cmd.object)
  | .bitOp => ("BITOP", Cmd.bitOp)
  | .sInter => ("SINTER", Cmd.sInter)
  | .sUnion => ("SUNION", Cmd.sUnion)
  | .sDiff => ("SDIFF", Cmd.sDiff)
  | .bLPop => ("BLPOP", Cmd.bLPop)
  | .bRPop => ("BRPOP", Cmd.bRPop)
  | .copy => ("COPY", Cmd.copy)
  | .mSetNX => ("MSETNX", Cmd.mSetNX)
  | .sort => ("SORT", Cmd.sort)
  | .touch => ("TOUCH", Cmd.touch)
  | .unlink => ("UNLINK", Cmd.unlink)
  | .sInterCard => ("SINTERCARD", Cmd.sInterCard)
  | .sInterStore => ("SINTERSTORE", Cmd.sInterStore)
  | .sUnionStore => ("SUNIONSTORE", Cmd.sUnionStore)
  | .sDiffStore => ("SDIFFSTORE", Cmd.sDiffStore)
  | .rPopLPush => ("RPOPLPUSH", Cmd.rPopLPush)
  | .lMove => ("LMOVE", Cmd.lMove)
  | .memory => ("MEMORY", Cmd.memory)
  | .enqueue => ("ENQUEUE", Cmd.enqueue)
  | .tagQuery => ("TAGQUERY", Cmd.tagQuery)
  | .tsDownsample => ("TS.DOWNSAMPLE", Cmd.tsDownsample)
  | .xInfo => ("XINFO", Cmd.xInfo)

def text (w : StoreWord) : String := w.switch.1

def cmd (w : StoreWord) : Cmd.StoreCmd := w.switch.2

end StoreWord

namespace Word

def text : Word → String
  | .key w => w.text
  | .store w => w.text
  | .flushDB => "FLUSHDB"
  | .flushAll => "FLUSHALL"
  | .save => "SAVE"
  | .bgSave => "BGSAVE"
  | .eval => "EVAL"
  | .evalSha => "EVALSHA"

def all : List Word :=
  KeyWord.all.map .key ++ StoreWord.all.map .store
    ++ [.flushDB, .flushAll, .save, .bgSave, .eval, .evalSha]

/-- The case that an upper-cased word selects. -/
def parse (word : Bytes) : Option Word := all.find? (fun w => word = bytes w.text)

theorem text_of_parse {word : Bytes} {w : Word} (h : parse word = some w) :
    word = bytes w.text := by
  have := List.find?_some h
  simpa using this

/-- The case of a command. -/
def ofArgs (args : List Bytes) : Option Word := parse (toUpper (args.headD []))

end Word

/-- Words of `exec` that start a loop beside the connections: it writes to the store later, a job
of `CRON.ADD` by `exec`, a link to a leader or a peer by what comes over it. -/
def deferredWords : List String := ["CRON.ADD", "REPLICAOF", "SLAVEOF", "MULTIMASTER"]

/-- What the command does is done when its reply is sent. -/
def AtOnce (args : List Bytes) : Bool :=
  deferredWords.all (fun text => toUpper (args.headD []) ≠ bytes text)

/-- What survives a command: the store, the append-only file and the snapshot file. -/
structure State where
  store : Store
  aof : List Record
  snapshot : Option Snapshot

namespace State

/-- A server that starts with no files. -/
def new : State := ⟨Store.new, [], none⟩

/-- A command that appends to the log. -/
def take (st : State) (r : Result) : Reply × State :=
  (r.reply, { st with store := r.store, aof := st.aof ++ r.log })

/-- `FLUSHDB` and `FLUSHALL`; the snapshot file is left alone. -/
def flush (st : State) : Reply × State :=
  (okReply, { st with store := st.store.flushDB, aof := [] })

/-- `saveSnapshot(true)`: the snapshot is written and the log truncated. -/
def saveSnapshot (env : Env) (st : State) : State :=
  let (snapshot, store) := st.store.dump env.R env.now env.hint
  ⟨store, [], some snapshot⟩

/-- `SAVE` and `BGSAVE`, whose goroutine is taken to finish before the next command. -/
def saveCmd (name done : String) (env : Env) (args : List Bytes) (st : State) : Reply × State :=
  if args.length ≠ 1 then (.error (wrongArgs (bytes name)), st)
  else if !env.snapshotPath then (.error (bytes "snapshot path is not configured"), st)
  else (.ok [.simple (bytes done)], st.saveSnapshot env)

end State

/-- One case of `exec`. A script is answered without running its commands. -/
def execWord (env : Env) (args : List Bytes) (st : State) : Word → Reply × State
  | .key w => st.take (w.cmd.exec env args st.store)
  | .store w => st.take (w.cmd env args st.store)
  | .flushDB | .flushAll => st.flush
  | .save => st.saveCmd "SAVE" "OK" env args
  | .bgSave => st.saveCmd "BGSAVE" "Background saving started" env args
  | .eval | .evalSha => (env.admin args, st)

/-- `exec` on a command that is not a script. -/
def execPlain (env : Env) (args : List Bytes) (st : State) : Reply × State :=
  match Word.ofArgs args with
  | none => (env.admin args, st)
  | some w => execWord env args st w

/-- The commands that `exec` runs for one command: those of the script, or the command
itself. -/
def expand (env : Env) (args : List Bytes) : List (List Bytes) :=
  match Word.ofArgs args with
  | some .eval | some .evalSha => env.calls args
  | _ => [args]

/-- The server after a command. -/
def execState (env : Env) (args : List Bytes) (st : State) : State :=
  (expand env args).foldl (fun st args => (execPlain env args st).2) st

/-- `Server.exec` -/
def exec (env : Env) (args : List Bytes) (st : State) : Reply × State :=
  ((execPlain env args st).1, execState env args st)

theorem expand_of_word {env : Env} {args : List Bytes} {w : Word}
    (hw : Word.ofArgs args = some w) (heval : w ≠ .eval) (hevalSha : w ≠ .evalSha) :
    expand env args = [args] := by
  unfold expand
  rw [hw]
  split
  · exact absurd (Option.some.inj ‹_›) heval
  · exact absurd (Option.some.inj ‹_›) hevalSha
  · rfl

theorem exec_of_word {env : Env} {args : List Bytes} {st : State} {w : Word}
    (hw : Word.ofArgs args = some w) (heval : w ≠ .eval) (hevalSha : w ≠ .evalSha) :
    exec env args st = execWord env args st w := by
  have hplain : execPlain env args st = execWord env args st w := by
    unfold execPlain
    rw [hw]
  show ((execPlain env args st).1, execState env args st) = _
  unfold execState
  rw [expand_of_word hw heval hevalSha, List.foldl_cons, List.foldl_nil, hplain]

/-- What every case keeps is kept by a command, and by a script. -/
theorem exec_invariant {P : State → Prop} {env : Env} {args : List Bytes} {st : State} (hst : P st)
    (h : ∀ call ∈ expand env args, ∀ w, Word.ofArgs call = some w →
      ∀ st, P st → P (execWord env call st w).2) : P (exec env args st).2 := by
  refine List.foldlRecOn (motive := P) _ _ hst (fun st hst call hcall => ?_)
  unfold execPlain
  cases hw : Word.ofArgs call with
  | none => exact hst
  | some w => exact h call hcall w hw st hst

end Vole.Server
