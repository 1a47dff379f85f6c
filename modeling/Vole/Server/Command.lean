import Vole.Store.Store

/-!
# What a command is given and what it gives back

`Server.exec` is one switch over the upper-cased first argument. Most of its cases have the
same shape: they count the arguments, ask `ensureOwns` whether this node serves the key,
and then read or change that one key and append records to the log. Such a case is a
`KeyCmd`; it sees the cell of its key and not the key itself, so what it does cannot depend
on the name of the key or on other keys.
-/

namespace Vole.Server

open Go

/-! ## Replies -/

/-- One call on the writer of the connection. -/
inductive Out where
  | simple (text : Bytes)
  | error (text : Bytes)
  | int (n : Int)
  | bulk (text : Bytes)
  | null
  | nullArray
  | arrayLen (n : Nat)
  deriving DecidableEq

/-- What a command writes, or the error it returns. -/
abbrev Reply := Except Bytes (List Out)

/-- One record of the append-only file: the arguments of `AOF.Append`. -/
abbrev Record := List Bytes

/-- `wrongArgs` -/
def wrongArgs (cmd : Bytes) : Bytes := bytes "wrong number of arguments for " ++ cmd

def okReply : Reply := .ok [.simple (bytes "OK")]

def intReply (n : Int) : Reply := .ok [.int n]

/-- `w.Int(1)` or `w.Int(0)`. -/
def boolReply (b : Bool) : Reply := .ok [.int (if b then 1 else 0)]

/-- `w.Bulk(v)`, or `w.Null()` when there is no value. -/
def bulkOrNull (v : Option Bytes) : List Out := [v.elim .null .bulk]

def intOrNull (n : Option Int) : List Out := [n.elim .null .int]

/-- `writeBulkStrings` -/
def writeBulkStrings (values : List Bytes) : List Out :=
  .arrayLen values.length :: values.map .bulk

/-- `writeHashPairs` -/
def writeHashPairs (pairs : List (Bytes × Bytes)) : List Out :=
  .arrayLen (pairs.length * 2) :: pairs.flatMap (fun p => [.bulk p.1, .bulk p.2])

/-- `writeEntries` -/
def writeEntries (entries : List StreamEntry) : List Out :=
  .arrayLen entries.length :: entries.flatMap (fun e =>
    .arrayLen 2 :: .bulk e.id :: writeBulkStrings e.fields)

/-- The members of a sorted set with their scores. -/
def writeScored (R : Runtime) (items : List ZMember) : List Out :=
  .arrayLen (items.length * 2) :: items.flatMap (fun m =>
    [.bulk m.member, .bulk (R.formatFloat m.score)])

/-- The members of a sorted set, with their scores if these are asked for. -/
def writeMembers (R : Runtime) (withScores : Bool) (items : List ZMember) : List Out :=
  if withScores then writeScored R items else writeBulkStrings (items.map (·.member))

/-- The error of a store operation as the error of the command, its result as a reply. -/
def replyOf {α : Type} (R : Runtime) (r : Except Err α) (out : α → List Out) : Reply :=
  match r with
  | .error e => .error (e.text R)
  | .ok a => .ok (out a)

/-! ## Arguments -/

/-- `strconv.Atoi`, with the text of its error. -/
def atoi (R : Runtime) (s : Bytes) : Except Bytes Int :=
  match parseInt s with
  | none => .error (atoiText R s)
  | some n => .ok n

/-- `strconv.ParseInt(s, 10, 64)`, with the text of its error. -/
def parseInt64 (R : Runtime) (s : Bytes) : Except Bytes Int :=
  match parseInt s with
  | none => .error (numErrorText R (bytes "ParseInt") s)
  | some n => .ok n

/-- `strconv.ParseFloat(s, 64)`, with the text of its error. -/
def parseFloat64 (R : Runtime) (s : Bytes) : Except Bytes F64 :=
  match R.parseFloat s with
  | none => .error (R.parseFloatError s)
  | some x => .ok x

/-- The upper-case letters of a text under simple case folding: besides the letters of
ASCII, the long `s` and the Kelvin sign fold to ASCII letters. -/
def foldCase : Bytes → Bytes
  | 0xC5 :: 0xBF :: rest => 83 :: foldCase rest
  | 0xE2 :: 0x84 :: 0xAA :: rest => 75 :: foldCase rest
  | c :: rest => (if 97 ≤ c ∧ c ≤ 122 then c - 32 else c) :: foldCase rest
  | [] => []

/-- `strings.EqualFold(s, word)` for a word in upper-case letters of ASCII. -/
def equalFold (s : Bytes) (word : String) : Bool := foldCase s = bytes word

/-- `args[i]` for the arguments after the key, so that `i` starts at `2`. -/
def arg (rest : List Bytes) (i : Nat) : Bytes := rest.getD (i - 2) []

/-- Consecutive arguments taken two by two. -/
def pairUp : List Bytes → List (Bytes × Bytes)
  | a :: b :: rest => (a, b) :: pairUp rest
  | _ => []

/-! ## What a command reads from outside the store -/

/-- What a command on one key reads besides the entry of the key. -/
structure KeyEnv where
  R : Runtime
  now : Time
  /-- the order in which maps are iterated -/
  hint : List Bytes
  /-- the random numbers drawn -/
  draws : Nat → Nat
  /-- `schemas.Validate` on the key -/
  validate : GoMap Bytes → Option Bytes
  /-- `t.Format(time.RFC3339)` -/
  rfc3339 : Time → Bytes

/-- What a command reads besides the store: the clock, the cluster and schema tables, and
the parts of the server that have no hold on the store. Any change of those between two
commands is a change of the environment. -/
structure Env where
  R : Runtime
  now : Time
  hint : List Bytes
  draws : Nat → Nat
  /-- `ensureOwns(w, keys...)`: the refusal it writes when this node does not serve them -/
  refuse : List Bytes → Option Bytes
  /-- `schemas.Validate(key, fields)` -/
  validate : Bytes → GoMap Bytes → Option Bytes
  rfc3339 : Time → Bytes
  /-- whether a snapshot path is configured -/
  snapshotPath : Bool
  /-- the reply of a command that has nothing to do with the store -/
  admin : List Bytes → Reply
  /-- the commands a script runs, one after the other -/
  calls : List Bytes → List (List Bytes)

/-- A single node without schemas, scripts or a snapshot path. -/
def Env.plain (R : Runtime) (now : Time) : Env where
  R := R
  now := now
  hint := []
  draws _ := 0
  refuse _ := none
  validate _ _ := none
  rfc3339 _ := []
  snapshotPath := false
  admin _ := .ok []
  calls _ := []

/-- The environment of a command on the given key. -/
def Env.at (env : Env) (key : Bytes) : KeyEnv :=
  ⟨env.R, env.now, env.hint, env.draws, env.validate key, env.rfc3339⟩

/-! ## Commands on one key -/

/-- A record about one key, without the key: the word and the arguments after the key. -/
abbrev KeyRecord := Bytes × List Bytes

/-- The arguments of `AOF.Append`. -/
def KeyRecord.at (r : KeyRecord) (key : Bytes) : Record := r.1 :: key :: r.2

/-- What a command on one key does. -/
structure Outcome where
  reply : Reply
  cell : Cell
  log : List KeyRecord

namespace Outcome

/-- A reply, with nothing changed. -/
def answer (c : Cell) (reply : Reply) : Outcome := ⟨reply, c, []⟩

/-- An error, with nothing changed. -/
def fail (c : Cell) (e : Bytes) : Outcome := ⟨.error e, c, []⟩

/-- The `if err != nil { return err }` after an argument is parsed. -/
def attempt {α : Type} (c : Cell) (p : Except Bytes α) (k : α → Outcome) : Outcome :=
  match p with
  | .error e => fail c e
  | .ok a => k a

theorem attempt_elim {P : Outcome → Prop} {α : Type} {c : Cell} {p : Except Bytes α}
    {k : α → Outcome} (hfail : ∀ e, P (fail c e)) (h : ∀ a, p = .ok a → P (k a)) :
    P (attempt c p k) := by
  cases p with
  | error e => exact hfail e
  | ok a => exact h a rfl

/-- A reading operation. -/
def query {α : Type} (R : Runtime) (c : Cell) (r : Except Err α) (out : α → List Out) : Outcome :=
  answer c (replyOf R r out)

/-- The record is appended and the operation is then run, whatever comes of it. -/
def logged {α : Type} (R : Runtime) (record : KeyRecord) (r : Except Err α × Cell)
    (out : α → List Out) : Outcome :=
  ⟨replyOf R r.1 out, r.2, [record]⟩

/-- The operation is run, and the records are appended if it did not fail. -/
def logging {α : Type} (R : Runtime) (r : Except Err α × Cell) (out : α → List Out)
    (records : α → List KeyRecord) : Outcome :=
  match r.1 with
  | .error e => ⟨.error (e.text R), r.2, []⟩
  | .ok a => ⟨.ok (out a), r.2, records a⟩

end Outcome

/-- A case of `exec` that works on one key. -/
structure KeyCmd where
  /-- how `wrongArgs` names the command, given the word the client sent -/
  name : Bytes → Bytes
  /-- the check of `len(args)` -/
  arity : Nat → Bool
  /-- the checks of the arguments after the key that come before `ensureOwns` -/
  check : Runtime → List Bytes → Option Bytes
  /-- the rest, given the word the client sent and the arguments after the key -/
  run : KeyEnv → Bytes → List Bytes → Cell → Outcome

/-- A case with no check but that of the number of arguments before `ensureOwns`. -/
def KeyCmd.of (name : String) (arity : Nat → Bool)
    (run : KeyEnv → Bytes → List Bytes → Cell → Outcome) : KeyCmd :=
  ⟨fun _ => bytes name, arity, fun _ _ => none, run⟩

/-- What a command does to the store and to the append-only file. -/
structure Result where
  reply : Reply
  store : Store
  log : List Record

namespace Result

/-- A reply, with nothing changed. -/
def answer (s : Store) (reply : Reply) : Result := ⟨reply, s, []⟩

/-- An error, with nothing changed. -/
def fail (s : Store) (e : Bytes) : Result := ⟨.error e, s, []⟩

/-- The `if err != nil { return err }` after an argument is parsed. -/
def attempt {α : Type} (s : Store) (p : Except Bytes α) (k : α → Result) : Result :=
  match p with
  | .error e => fail s e
  | .ok a => k a

/-- `if ok, err := s.ensureOwns(w, keys...); !ok { return err }`: the refusal is a reply. -/
def owned (env : Env) (keys : List Bytes) (s : Store) (k : Result) : Result :=
  match env.refuse keys with
  | some refusal => answer s (.ok [.error refusal])
  | none => k

theorem attempt_elim {P : Result → Prop} {α : Type} {s : Store} {p : Except Bytes α}
    {k : α → Result} (hfail : ∀ e, P (fail s e)) (h : ∀ a, p = .ok a → P (k a)) :
    P (attempt s p k) := by
  cases p with
  | error e => exact hfail e
  | ok a => exact h a rfl

theorem owned_elim {P : Result → Prop} {env : Env} {keys : List Bytes} {s : Store} {r : Result}
    (hrefused : ∀ reply, P (answer s reply)) (h : P r) : P (owned env keys s r) := by
  unfold owned
  split
  · exact hrefused _
  · exact h

end Result

namespace KeyCmd

/-- The part of a case behind its checks. -/
def act (cmd : KeyCmd) (env : Env) (word key : Bytes) (rest : List Bytes) (s : Store) : Result :=
  let r := cmd.run (env.at key) word rest (s.cell key)
  ⟨r.reply, s.put key r.cell, r.log.map (·.at key)⟩

/-- A case whose key is the first argument. -/
def exec (cmd : KeyCmd) (env : Env) (args : List Bytes) (s : Store) : Result :=
  match args with
  | word :: key :: rest =>
    if !cmd.arity (rest.length + 2) then .fail s (wrongArgs (cmd.name word))
    else
      match cmd.check env.R rest with
      | some e => .fail s e
      | none => .owned env [key] s (cmd.act env word key rest s)
  | _ => .fail s (wrongArgs (cmd.name (args.headD [])))

theorem exec_cases (cmd : KeyCmd) (env : Env) (args : List Bytes) (s : Store) :
    (∃ word key rest, args = word :: key :: rest ∧ cmd.arity (rest.length + 2) = true ∧
      cmd.check env.R rest = none ∧ env.refuse [key] = none ∧
      cmd.exec env args s = cmd.act env word key rest s) ∨
    ∃ reply, cmd.exec env args s = .answer s reply ∧ ∀ n, reply ≠ intReply n := by
  unfold KeyCmd.exec
  split
  · rename_i word key rest
    split
    · exact .inr ⟨_, rfl, fun _ => nofun⟩
    · rename_i harity
      split
      · exact .inr ⟨_, rfl, fun _ => nofun⟩
      · rename_i hcheck
        unfold Result.owned
        split
        · exact .inr ⟨_, rfl, fun _ h => by simp [intReply] at h⟩
        · rename_i hrefuse
          exact .inl ⟨word, key, rest, rfl, by simpa using harity, hcheck, hrefuse, rfl⟩
  · exact .inr ⟨_, rfl, fun _ => nofun⟩

end KeyCmd

end Vole.Server
