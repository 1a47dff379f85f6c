import Vole.Server.Acceptance
import Vole.Server.Frame

/-!
# The records that account for a command's changes

If every `Append` succeeds, a command comes to one of four things: it appends nothing and changes
nothing; it appends one record that names every key it changes; it discards the error of
`Append`, succeeds, and its records name every key it changes; or it is one of the few that
change keys and append nothing.
-/

namespace Vole.Server

open Go Cmd Store List

variable {order : AppendOrder} {mute : Bool} {accepts : Prop}

/-! ## Commands that append nothing -/

/-- `SORT` stores an empty result without a record. -/
def StoreWord.silent : StoreWord → Bool
  | .tsDownsample | .sort => true
  | _ => false

/-! ## On the store -/

/-- The arguments of the records, the keys they are about among them. -/
def named (log : List Record) : List Bytes := log.flatMap List.tail

/-- The records name every key that has changed. -/
def Traced (now : Time) (s : Store) (r : Result) : Prop := s.Within now (named r.log) r.store

/-- What a case comes to if every `Append` succeeds, given how it calls `Append`, whether it is
one of those that append nothing, and when its operation is accepted. -/
inductive Accounted (now : Time) (s : Store) (order : AppendOrder) (mute : Bool) (accepts : Prop)
    (r : Result) : Prop
  | still (hlog : r.log = []) (hstore : s.Unchanged now r.store)
  | single (record : Record) (horder : order ≠ .unchecked) (hok : accepts → r.reply.isOk = true)
      (hlog : r.log = [record]) (hstore : s.Within now record.tail r.store)
  | granted (horder : order = .unchecked) (hok : r.reply.isOk = true) (hlog : r.log ≠ [])
      (hstore : Traced now s r)
  | silent (hmute : mute = true) (hlog : r.log = [])

namespace Accounted

variable {now : Time} {s : Store}

theorem answer {s' : Store} (reply : Reply) (h : s.Unchanged now s') :
    Accounted now s order mute accepts (.answer s' reply) := .still rfl h

theorem fail {s' : Store} (e : Bytes) (h : s.Unchanged now s') :
    Accounted now s order mute accepts (.fail s' e) := .still rfl h

theorem ite {p : Prop} [Decidable p] {r r' : Result} (h : Accounted now s order mute accepts r)
    (h' : Accounted now s order mute accepts r') : Accounted now s order mute accepts (if p then r else r') := by
  split
  · exact h
  · exact h'

theorem attempt {α : Type} {p : Except Bytes α} {k : α → Result}
    (h : ∀ a, Accounted now s order mute accepts (k a)) : Accounted now s order mute accepts (.attempt s p k) :=
  Result.attempt_elim (fun e => fail e (fun _ => .refl _)) (fun a _ => h a)

theorem owned {env : Env} {keys : List Bytes} {r : Result} (h : Accounted now s order mute accepts r) :
    Accounted now s order mute accepts (.owned env keys s r) :=
  Result.owned_elim (fun _ => answer _ (fun _ => .refl _)) h

theorem counted {name : String} {ok : Nat → Bool} {run : StoreCmd} {env : Env}
    {args : List Bytes} (h : ok args.length = true → Accounted now s order mute accepts (run env args s)) :
    Accounted now s order mute accepts (Cmd.counted name ok run env args s) :=
  Cmd.counted_elim (fun _ => fail _ (fun _ => .refl _)) h

end Accounted

section
variable {env : Env} {args : List Bytes} {s : Store}

section
variable (horder : order = .unchecked)
include horder

end

section
variable (horder : order ≠ .unchecked)
include horder

end

end

end Vole.Server
