import Vole.Server.Connection
import Vole.Server.Reading
import Vole.Store.Mirror

/-!
# Commands under a renaming of keys

A case of `exec` that finds its keys at fixed places among its arguments does not look into
their names. On renamed keys it gives the same reply and does the same to the renamed store,
and under all other names it changes nothing.
-/

namespace Vole.Server

open Go Cmd

variable {ka : KeyArgs}

/-! ## The keys among the arguments -/

namespace KeyArgs

/-- The arguments with the keys among them renamed. -/
def rename (f : Bytes → Bytes) (args : List Bytes) (ka : KeyArgs) : List Bytes :=
  args.mapIdx (fun i a => if ka.isKey args.length i then f a else a)

/-- The keys among the arguments. -/
def keys (args : List Bytes) (ka : KeyArgs) : List Bytes :=
  (args.zipIdx.filter (fun p => ka.isKey args.length p.2)).map (·.1)

variable {f : Bytes → Bytes} {args : List Bytes}

@[simp] theorem length_rename (ka : KeyArgs) : (ka.rename f args).length = args.length :=
  List.length_mapIdx

theorem mem_keys {i : Nat} (hi : i < args.length)
    (hkey : ka.isKey args.length i = true) : args[i] ∈ ka.keys args := by
  refine List.mem_map.mpr ⟨(args[i], i), List.mem_filter.mpr ⟨?_, hkey⟩, rfl⟩
  rw [List.mem_zipIdx_iff_getElem?, List.getElem?_eq_getElem hi]

theorem keys_subset (ka : KeyArgs) : ka.keys args ⊆ args := by
  intro a ha
  obtain ⟨q, hq, rfl⟩ := List.mem_map.mp ha
  exact List.fst_mem_of_mem_zipIdx (List.mem_filter.mp hq).1

theorem rename_of_fixed (h : ∀ a ∈ ka.keys args, f a = a) : ka.rename f args = args := by
  refine List.ext_getElem (length_rename ka) (fun i hi hi' => ?_)
  have hget : (ka.rename f args)[i] = if ka.isKey args.length i then f args[i] else args[i] :=
    List.getElem_mapIdx ..
  rw [hget]
  split
  · rename_i hkey
    exact h _ (mem_keys hi' hkey)
  · rfl

theorem mapIdx_map {α β : Type} (g : α → β) (l : List α) : l.mapIdx (fun _ a => g a) = l.map g :=
  List.ext_getElem (by simp) (by simp)

theorem rename_first (word key : Bytes) (rest : List Bytes) :
    KeyArgs.first.rename f (word :: key :: rest) = word :: f key :: rest := by
  simpa [rename, isKey, List.mapIdx_cons] using mapIdx_map id rest

theorem rename_firstTwo (word a b : Bytes) (rest : List Bytes) :
    KeyArgs.firstTwo.rename f (word :: a :: b :: rest) = word :: f a :: f b :: rest := by
  simpa [rename, isKey, List.mapIdx_cons] using mapIdx_map id rest

theorem rename_all (word : Bytes) (keys : List Bytes) :
    KeyArgs.all.rename f (word :: keys) = word :: keys.map f := by
  simpa [rename, isKey, List.mapIdx_cons] using mapIdx_map f keys

theorem rename_fromSecond (word op : Bytes) (keys : List Bytes) :
    KeyArgs.fromSecond.rename f (word :: op :: keys) = word :: op :: keys.map f := by
  simpa [rename, isKey, List.mapIdx_cons] using mapIdx_map f keys

theorem pairUp_alternate (word : Bytes) (rest : List Bytes) :
    pairUp (KeyArgs.alternate.rename f (word :: rest)).tail
      = Store.Mirrors.renamePairs f (pairUp rest) := by
  have hrest : (KeyArgs.alternate.rename f (word :: rest)).tail
      = rest.mapIdx (fun i a => if (i + 1) % 2 = 1 then f a else a) := by
    simp [rename, isKey, List.mapIdx_cons]
  have hparity : ∀ i, (i + 1 + 1 + 1) % 2 = (i + 1) % 2 := fun i => by omega
  rw [hrest]
  clear hrest
  induction rest using pairUp.induct with
  | case1 a b rest ih =>
    simpa [pairUp, List.mapIdx_cons, Store.Mirrors.renamePairs, hparity] using ih
  | case2 rest hshort =>
    rcases rest with _ | ⟨a, _ | ⟨b, rest⟩⟩
    · rfl
    · rfl
    · exact absurd rfl (hshort a b rest)

end KeyArgs

/-! ## What a command gives back -/

/-- The environment of a command on the keys before they are renamed. -/
def Env.pull (f : Bytes → Bytes) (env : Env) : Env :=
  { env with
    refuse := fun keys => env.refuse (keys.map f)
    validate := fun key => env.validate (f key) }

theorem Env.pull_R (f : Bytes → Bytes) (env : Env) : (env.pull f).R = env.R := rfl

theorem Env.pull_now (f : Bytes → Bytes) (env : Env) : (env.pull f).now = env.now := rfl

namespace Result

/-- The same reply, and stores that mirror each other. -/
structure Renamed (f : Bytes → Bytes) (base : Bytes → Entry) (seq : Nat → Nat → Prop)
    (r r' : Result) : Prop where
  reply : r.reply = r'.reply
  store : r.store.Mirrors f base seq r'.store

namespace Renamed

variable {f : Bytes → Bytes} {base : Bytes → Entry} {seq : Nat → Nat → Prop} {s t : Store}
  {env : Env} {r r' : Result}

variable (h : s.Mirrors f base seq t)
include h

theorem answer (reply : Reply) :
    Renamed f base seq (.answer s reply) (.answer t reply) := ⟨rfl, h⟩

theorem fail (e : Bytes) :
    Renamed f base seq (.fail s e) (.fail t e) := ⟨rfl, h⟩

theorem attempt {α : Type} {p : Except Bytes α} {k k' : α → Result}
    (hk : ∀ a, p = .ok a → Renamed f base seq (k a) (k' a)) :
    Renamed f base seq (.attempt s p k) (.attempt t p k') := by
  cases p with
  | error e => exact fail h e
  | ok a => exact hk a rfl

theorem owned (keys : List Bytes) (hr : Renamed f base seq r r') :
    Renamed f base seq (.owned env (keys.map f) s r) (.owned (env.pull f) keys t r') := by
  unfold Result.owned Env.pull
  cases env.refuse (keys.map f) with
  | some refusal => exact answer h _
  | none => exact hr

omit h in
theorem ite {p : Prop} [Decidable p] {q q' : Result} (hr : Renamed f base seq r r')
    (hq : Renamed f base seq q q') :
    Renamed f base seq (if p then r else q) (if p then r' else q') := by
  split
  · exact hr
  · exact hq

omit h

theorem logThen {α : Type} {R : Runtime} {a a' : Except Err α × Store} {record record' : Record}
    {out : α → List Out} (h : Store.Matches f base seq a a') :
    Renamed f base seq (logThen R record a out) (logThen R record' a' out) :=
  ⟨congrArg (fun a => replyOf R a out) h.fst, h.snd⟩

end Renamed

end Result

/-! ## The cases of `exec` -/

section

open Cmd Result

variable {f : Bytes → Bytes} {base : Bytes → Entry} {seq : Nat → Nat → Prop} {s t : Store}
  {env : Env} (args : List Bytes) (hf : Function.Injective f) (h : s.Mirrors f base seq t)

/-- A case does on renamed keys what it does on the keys themselves. -/
def Renames (_ : s.Mirrors f base seq t) (env : Env) (places : KeyArgs) (args : List Bytes)
    (cmd : StoreCmd) : Prop :=
  Renamed f base seq (cmd env (places.rename f args) s) (cmd (env.pull f) args t)

namespace Renames

variable {args} {h}

theorem counted {places : KeyArgs} {name : String} {ok : Nat → Bool} {run : StoreCmd}
    (hrun : ok args.length = true →
      Renamed f base seq (run env (places.rename f args) s) (run (env.pull f) args t)) :
    Renames h env places args (counted name ok run) := by
  unfold Renames Cmd.counted
  rw [KeyArgs.length_rename]
  cases hok : ok args.length with
  | false => exact .fail h _
  | true => exact hrun hok

theorem countedKeys {name : String} {body : StoreCmd} (hbody : ∀ word keys, args = word :: keys →
      Renamed f base seq (body env (word :: keys.map f) s) (body (env.pull f) (word :: keys) t)) :
    Renames h env .all args
      (Cmd.counted name (2 ≤ ·) (fun env args s => .owned env args.tail s (body env args s))) := by
  refine counted (fun hn => ?_)
  match args, hn with
  | word :: keys, _ =>
    rw [KeyArgs.rename_all]
    exact .owned h keys (hbody word keys rfl)

end Renames
include hf h

/-- A case whose key is the first argument sees the entry of the key and not the name. -/
theorem renamed_key (cmd : KeyCmd) :
    Renamed f base seq (cmd.exec env (KeyArgs.first.rename f args) s)
      (cmd.exec (env.pull f) args t) := by
  match args with
  | [] => exact .fail h _
  | [word] => exact .fail h _
  | word :: key :: rest =>
    rw [KeyArgs.rename_first]
    refine .ite (.fail h _) ?_
    rw [Env.pull_R]
    cases cmd.check env.R rest with
    | some e => exact .fail h e
    | none =>
      refine .owned h [key] ⟨?_, ?_⟩
      · show (cmd.run (env.at (f key)) word rest (s.cell (f key))).reply = _
        rw [h.cell_eq key]
        rfl
      · refine h.put hf key ?_
        rw [h.cell_eq key]
        rfl

omit hf in
theorem renamed_mGet : Renames h env .all args Cmd.mGet := by
  refine .countedKeys (fun word keys _ => ⟨?_, h⟩)
  show Except.ok (Out.arrayLen (keys.map f).length :: (s.mGet env.now (keys.map f)).flatMap _) = _
  rw [h.mGet, List.length_map]
  rfl

omit hf in
theorem renamed_existing (name : String) : Renames h env .all args (Cmd.existing name) := by
  refine .countedKeys (fun word keys _ => ⟨?_, h⟩)
  show intReply (s.existCount env.now (keys.map f)) = _
  rw [h.existCount]
  rfl

omit hf in
theorem renamed_setQuery (name : String) (read : SetReader)
    (hread : ∀ keys, read s env.now (keys.map f) = read t env.now keys) :
    Renames h env .all args (setQuery name read) := by
  refine .countedKeys (fun word keys _ => ⟨?_, h⟩)
  show replyOf env.R (read s env.now (keys.map f)) _ = _
  rw [hread]
  rfl

omit hf in
theorem renamed_pfCount : Renames h env .all args Cmd.pfCount := by
  refine .countedKeys (fun word keys _ => ⟨?_, h⟩)
  show intReply (s.pfCount env.R env.now (keys.map f)) = _
  rw [h.pfCount]
  rfl

theorem renamed_delKeys (keys : List Bytes) {log log' : List Record} :
    Renamed f base seq
      ⟨intReply (Store.del env.now (keys.map f) s).1, (Store.del env.now (keys.map f) s).2, log⟩
      ⟨intReply (Store.del env.now keys t).1, (Store.del env.now keys t).2, log'⟩ :=
  have hdel := h.del hf keys
  ⟨congrArg intReply (congrArg Int.ofNat hdel.fst), hdel.snd⟩

theorem renamed_del : Renames h env .all args Cmd.del :=
  .countedKeys (fun _ keys _ => renamed_delKeys hf h keys)

theorem renamed_unlink : Renames h env .all args Cmd.unlink :=
  .countedKeys (fun _ keys _ => renamed_delKeys hf h keys)

theorem renamed_pfMerge : Renames h env .all args pfMerge := by
  refine .counted (fun hn => ?_)
  match args, hn with
  | word :: dest :: srcs, _ =>
    rw [KeyArgs.rename_all]
    exact .owned h (dest :: srcs) ⟨rfl, h.pfMerge hf dest srcs⟩

theorem replaceSet_mirrors (dest : Bytes) (members : List Bytes) :
    (replaceSet env.now (f dest) members s).Mirrors f base seq
      (replaceSet env.now dest members t) := by
  have hdel : Store.Matches f base seq (Store.del env.now ([dest].map f) s)
    (Store.del env.now [dest] t) := h.del hf [dest]
  unfold replaceSet
  split
  · exact hdel.snd
  · exact hdel.snd.modify hf dest _

theorem renamed_setStore (name : String) (read : SetReader)
    (hread : ∀ keys, read s env.now (keys.map f) = read t env.now keys) :
    Renames h env .all args (setStore name read) := by
  refine .counted (fun hn => ?_)
  match args, hn with
  | word :: dest :: keys, _ =>
    rw [KeyArgs.rename_all]
    refine .owned h (dest :: keys) ?_
    have hkeys : read s env.now ((word :: (dest :: keys).map f).drop 2) = read t env.now keys :=
      hread keys
    have hkeys' : read t env.now ((word :: dest :: keys).drop 2) = read t env.now keys := rfl
    rw [Env.pull_now, Env.pull_R, hkeys, hkeys']
    cases read t env.now keys with
    | error e => exact .fail h _
    | ok members => exact ⟨rfl, replaceSet_mirrors hf h dest members⟩

theorem renamed_mSet : Renames h env .alternate args mSet := by
  refine .counted (fun hn => ?_)
  match args, hn with
  | word :: rest, _ =>
    dsimp only
    rw [KeyArgs.pairUp_alternate, Store.Mirrors.renamePairs_keys]
    exact .owned h _ ⟨rfl, h.foldl_pairs hf (pairUp rest) (fun v => Cell.setAbsolute v zeroTime)⟩

theorem renamed_mSetNX : Renames h env .alternate args mSetNX := by
  refine .counted (fun hn => ?_)
  match args, hn with
  | word :: rest, _ =>
    dsimp only
    rw [KeyArgs.pairUp_alternate, Store.Mirrors.renamePairs_keys]
    refine .owned h _ ?_
    obtain ⟨a, s₁, t₁, hs, ht, hst⟩ := (h.mSetNX hf (pairUp rest)).pair
    have ht : t.mSetNX env.now (pairUp (word :: rest).tail) = (a, t₁) := ht
    rw [Env.pull_now, hs, ht]
    cases a with
    | false => exact .answer hst _
    | true => exact ⟨rfl, hst⟩

theorem renamed_rename : Renames h env .firstTwo args rename := by
  refine .counted (fun hn => ?_)
  match args, hn with
  | [word, key, newkey], _ =>
    rw [KeyArgs.rename_firstTwo]
    exact .owned h [key, newkey] (.logThen (h.rename hf key newkey))

theorem renamed_copy : Renames h env .firstTwo args copy := by
  refine .counted (fun hn => ?_)
  match args, hn with
  | word :: src :: dst :: rest, _ =>
    rw [KeyArgs.rename_firstTwo]
    refine .owned h [src, dst] ?_
    have hcopy : Store.Matches f base seq (s.copy env.now (f src) (f dst) _) _ :=
      h.copy hf src dst (rest.any (fun a => equalFold a "REPLACE"))
    obtain ⟨a, s₁, t₁, hs, ht, hst⟩ := hcopy.pair
    simp only [List.getD_cons_succ, List.getD_cons_zero, List.drop_succ_cons, List.drop_zero,
      Env.pull_now, hs, ht]
    cases a with
    | false => exact .answer hst _
    | true => exact ⟨rfl, hst⟩

theorem renamed_sMove : Renames h env .firstTwo args sMove := by
  refine .counted (fun hn => ?_)
  match args, hn with
  | [word, src, dst, member], _ =>
    rw [KeyArgs.rename_firstTwo]
    exact .owned h [src] (.owned h [dst] (.logThen (h.sMove hf src dst member)))

theorem renamed_moveElement (srcLeft dstLeft : Bool) (src dst : Bytes) :
    Renamed f base seq (moveElement srcLeft dstLeft env (f src) (f dst) s)
      (moveElement srcLeft dstLeft (env.pull f) src dst t) := by
  obtain ⟨a, s₁, t₁, hs, ht, hst⟩ := (h.lMove hf src dst srcLeft dstLeft).pair
  unfold moveElement
  rw [Env.pull_now, Env.pull_R, hs, ht]
  match a with
  | .error e => exact .fail hst _
  | .ok none => exact .answer hst _
  | .ok (some val) => exact ⟨rfl, hst⟩

theorem renamed_rPopLPush : Renames h env .firstTwo args rPopLPush := by
  refine .counted (fun hn => ?_)
  match args, hn with
  | [word, src, dst], _ =>
    rw [KeyArgs.rename_firstTwo]
    exact .owned h [src, dst] (renamed_moveElement hf h false true src dst)

theorem renamed_lMove : Renames h env .firstTwo args lMove := by
  refine .counted (fun hn => ?_)
  match args, hn with
  | [word, src, dst, srcEnd, dstEnd], _ =>
    rw [KeyArgs.rename_firstTwo]
    exact .owned h [src, dst] (.ite (.fail h _) (renamed_moveElement hf h _ _ src dst))

theorem renamed_tsDownsample : Renames h env .firstTwo args tsDownsample := by
  refine .counted (fun hn => ?_)
  match args, hn with
  | [word, src, dst, agg, start, stop, size], _ =>
    rw [KeyArgs.rename_firstTwo]
    have hsample : Store.Matches f base seq
        (s.tsDownsample env.R env.now (f src) (f dst) (toLower agg) (parseIntValue start)
          (parseIntValue stop) (parseIntValue size)) _ := h.tsDownsample hf src dst _ _ _ _
    exact .owned h [src, dst] ⟨congrArg (fun r => replyOf env.R r (fun n : Nat => [.int n]))
      hsample.fst, hsample.snd⟩

theorem renamed_bitOp : Renames h env .fromSecond args bitOp := by
  refine .counted (fun hn => ?_)
  match args, hn with
  | word :: op :: dest :: keys, _ =>
    rw [KeyArgs.rename_fromSecond]
    refine .owned h (dest :: keys) ?_
    have hbitOp : Store.Matches f base seq (s.bitOp env.now op (f dest) (keys.map f)) _ :=
      h.bitOp hf op dest keys
    obtain ⟨a, s₁, t₁, hs, ht, hst⟩ := hbitOp.pair
    simp only [List.map_cons, List.getD_cons_succ, List.getD_cons_zero, List.drop_succ_cons,
      List.drop_zero, Env.pull_now, Env.pull_R, hs, ht]
    cases a with
    | error e => exact .fail hst _
    | ok n => exact ⟨rfl, hst⟩

theorem renamed_listPush (left : Bool) : Renames h env .first args (listPush left) := by
  match args with
  | [] => exact .fail h _
  | [word] => exact .fail h _
  | word :: key :: values =>
    unfold Renames
    rw [KeyArgs.rename_first]
    refine .ite (.fail h _) (.owned h [key] ?_)
    show Renamed f base seq
      (if (s.entries (f key)).type env.now ≠ bytes "none"
        ∧ (s.entries (f key)).type env.now ≠ bytes "list" then _ else _) _
    rw [h.inside key]
    exact .ite (.fail h _) (.logThen (h.pushList hf key left values))

omit hf h in
theorem parseSort_storeKey {R : Runtime} {o o' : SortOptions} {rest : List Bytes}
    (hparse : parseSort R o rest = .ok o') :
    o'.storeKey = o.storeKey ∨ o'.storeKey ∈ rest ∧ ∃ a ∈ rest, toUpper a = bytes "STORE" := by
  have hmono : ∀ {l l' : List Bytes}, l ⊆ l' →
      (o'.storeKey ∈ l ∧ ∃ a ∈ l, toUpper a = bytes "STORE") →
      o'.storeKey ∈ l' ∧ ∃ a ∈ l', toUpper a = bytes "STORE" :=
    fun hl ⟨hkey, a, ha, hstore⟩ => ⟨hl hkey, a, hl ha, hstore⟩
  fun_induction parseSort R o rest with
  | case1 o => exact .inl (congrArg SortOptions.storeKey (Except.ok.inj hparse).symm)
  | case2 o opt rest word hword ih => exact (ih hparse).imp_right (hmono (by simp))
  | case3 o opt rest word _ hword ih => exact (ih hparse).imp_right (hmono (by simp))
  | case4 o opt rest word _ _ hword ih => exact (ih hparse).imp_right (hmono (by simp))
  | case7 o opt word _ _ _ hword a b rest offset count _ _ ih =>
    refine (ih hparse).imp_right (hmono (fun x hx => ?_))
    simp [hx]
  | case10 o opt word _ _ _ _ hword dst rest ih =>
    refine .inr ⟨?_, opt, .head _, hword⟩
    rcases ih hparse with hkey | ⟨hkey, -⟩
    · simp [hkey]
    · simp [hkey]
  | _ => cases hparse

theorem renamed_sortRun (key : Bytes) {o : SortOptions} (hkey : o.storeKey = []) :
    Renamed f base seq (sortRun env (f key) o s) (sortRun (env.pull f) key o t) := by
  have hsort : Store.Matches f base seq
      (s.sort env.R env.now (f key) o.alpha o.desc o.offset o.count none env.hint)
      (t.sort env.R env.now key o.alpha o.desc o.offset o.count none env.hint) :=
    h.sort hf key o.alpha o.desc o.offset o.count env.hint
  obtain ⟨a, s₁, t₁, hs, ht, hst⟩ := hsort.pair
  have ht : t.sort (env.pull f).R (env.pull f).now key o.alpha o.desc o.offset o.count none
    (env.pull f).hint = (a, t₁) := ht
  unfold sortRun
  dsimp only
  rw [if_pos hkey, hs, ht]
  cases a with
  | error e => exact .fail hst _
  | ok result =>
    dsimp only
    rw [if_pos hkey, if_pos hkey]
    exact .answer hst _

theorem renamed_sort (hstore : ∀ a ∈ args.drop 2, toUpper a ≠ bytes "STORE") :
    Renames h env .first args sort := by
  refine .counted (fun hn => ?_)
  match args, hn with
  | word :: key :: rest, _ =>
    rw [KeyArgs.rename_first]
    refine .owned h [key] (.attempt h (fun o ho => ?_))
    have hkey : o.storeKey = [] := by
      rcases parseSort_storeKey ho with hkey | ⟨-, a, ha, hword⟩
      · exact hkey
      · exact absurd hword (hstore a ha)
    rw [if_pos hkey, if_pos hkey]
    exact renamed_sortRun hf h key hkey

end

/-! ## One command -/

/-- Where a case on several keys finds them, if they are at fixed places and the reply does not
name them. -/
def StoreWord.keyArgs (args : List Bytes) : StoreWord → Option KeyArgs
  | .lPush | .rPush => some .first
  | .rename | .copy | .sMove | .rPopLPush | .lMove | .tsDownsample => some .firstTwo
  | .mGet | .exists_ | .touch | .del | .unlink | .pfCount | .pfMerge | .sInter | .sUnion | .sDiff
  | .sInterStore | .sUnionStore | .sDiffStore => some .all
  | .mSet | .mSetNX => some .alternate
  | .bitOp => some .fromSecond
  | .sort => if (args.drop 2).all (fun a => toUpper a ≠ bytes "STORE") then some .first else none
  | _ => none

/-- Where a case finds its keys. -/
def Word.keyArgs (args : List Bytes) : Word → Option KeyArgs
  | .key _ => some .first
  | .store w => w.keyArgs args
  | _ => none

section
variable {f : Bytes → Bytes} {base : Bytes → Entry} {seq : Nat → Nat → Prop} {env : Env}
  {args : List Bytes} {ka : KeyArgs}

theorem StoreWord.renamed {w : StoreWord} {s t : Store} (hka : w.keyArgs args = some ka)
    (hf : Function.Injective f) (h : s.Mirrors f base seq t) :
    Result.Renamed f base seq (w.cmd env (ka.rename f args) s) (w.cmd (env.pull f) args t) := by
  cases w
  case sort =>
    have hka : (if (args.drop 2).all (fun a => toUpper a ≠ bytes "STORE") then some .first
      else none) = some ka := hka
    split at hka
    · rename_i hstore
      cases hka
      exact renamed_sort args hf h (by simpa using hstore)
    · cases hka
  all_goals cases hka
  case mGet => exact renamed_mGet args h
  case mSet => exact renamed_mSet args hf h
  case exists_ => exact renamed_existing args h _
  case touch => exact renamed_existing args h _
  case del => exact renamed_del args hf h
  case unlink => exact renamed_unlink args hf h
  case lPush => exact renamed_listPush args hf h _
  case rPush => exact renamed_listPush args hf h _
  case sMove => exact renamed_sMove args hf h
  case pfCount => exact renamed_pfCount args h
  case pfMerge => exact renamed_pfMerge args hf h
  case rename => exact renamed_rename args hf h
  case bitOp => exact renamed_bitOp args hf h
  case sInter => exact renamed_setQuery args h _ _ h.sameSets.sInter
  case sUnion => exact renamed_setQuery args h _ _ h.sameSets.sUnion
  case sDiff => exact renamed_setQuery args h _ _ h.sameSets.sDiff
  case copy => exact renamed_copy args hf h
  case mSetNX => exact renamed_mSetNX args hf h
  case sInterStore => exact renamed_setStore args hf h _ _ h.sameSets.sInter
  case sUnionStore => exact renamed_setStore args hf h _ _ h.sameSets.sUnion
  case sDiffStore => exact renamed_setStore args hf h _ _ h.sameSets.sDiff
  case rPopLPush => exact renamed_rPopLPush args hf h
  case lMove => exact renamed_lMove args hf h
  case tsDownsample => exact renamed_tsDownsample args hf h

/-- **A command on renamed keys** gives the same reply, and does the same to the renamed
store. -/
theorem execWord_renamed {w : Word} {st st' : State} (hka : w.keyArgs args = some ka)
    (hf : Function.Injective f) (h : st.store.Mirrors f base seq st'.store) :
    (execWord env (ka.rename f args) st w).1 = (execWord (env.pull f) args st' w).1 ∧
      (execWord env (ka.rename f args) st w).2.store.Mirrors f base seq
        (execWord (env.pull f) args st' w).2.store := by
  have hr : ∀ {r r' : Result}, r.Renamed f base seq r' → (st.take r).1 = (st'.take r').1 ∧
      (st.take r).2.store.Mirrors f base seq (st'.take r').2.store :=
    fun hr => ⟨hr.reply, hr.store⟩
  cases w with
  | key w =>
    cases hka
    exact hr (renamed_key args hf h w.cmd)
  | store w => exact hr (StoreWord.renamed hka hf h)
  | flushDB | flushAll | save | bgSave | eval | evalSha => cases hka

end

end Vole.Server
