import Vole.Lib.Transition
import Mathlib.Logic.Function.Basic

/-!
# Commands that look atomic

Clients send commands to a server, each one after the reply to the one before. A command is a
program of atomic calls on the shared state; some calls only read, others change it, and those
are made under a mutex that not every command takes. The commands look atomic if the replies and
the state are those of some serial order of whole commands.

The mutex keeps writers apart. What it leaves open is a reader without it: one that looks while
a writer is between its first change and its last call, and one that has read, not yet locked,
and is overtaken by a writer.
-/

namespace Vole.Serial

open Transition

variable {κ ι σ ρ : Type*}

/-! ## Commands -/

/-- A command. After a call it goes on as the state before the call says. -/
inductive Code (σ ρ : Type*) where
  | ret (reply : ρ)
  | lock (next : Code σ ρ)
  | unlock (next : Code σ ρ)
  | read (next : σ → Code σ ρ)
  | write (run : σ → σ) (next : σ → Code σ ρ)

namespace Code

/-- The reply, and the state once the command has run to its end with nobody else around. -/
def finish : Code σ ρ → σ → ρ × σ
  | .ret reply, s => (reply, s)
  | .lock next, s => next.finish s
  | .unlock next, s => next.finish s
  | .read next, s => (next s).finish s
  | .write run next, s => (next s).finish (run s)

/-- The reply of a command that has no call left. -/
def settled : Code σ ρ → Option ρ
  | .ret reply => some reply
  | .lock next => next.settled
  | .unlock next => next.settled
  | .read _ => none
  | .write _ _ => none

/-- The command, which holds the mutex or does not, changes the state only while it holds it,
and makes no call once it has given it back. -/
def Guarded : Code σ ρ → Prop → Prop
  | .ret _, held => ¬ held
  | .lock next, held => ¬ held ∧ next.Guarded True
  | .unlock next, held => held ∧ next.Guarded False ∧ next.settled ≠ none
  | .read next, held => ∀ s, (next s).Guarded held
  | .write _ next, held => held ∧ ∀ s, (next s).Guarded True

theorem finish_of_settled {c : Code σ ρ} {reply : ρ} (h : c.settled = some reply) (s : σ) :
    c.finish s = (reply, s) := by
  induction c with
  | ret r =>
    cases h
    rfl
  | lock next ih => exact ih h
  | unlock next ih => exact ih h
  | read next _ => cases h
  | write run next _ => cases h

end Code

/-! ## Serial order -/

/-- The state, and the replies each client has had. -/
structure Served (κ σ ρ : Type*) where
  st : σ
  replies : κ → List ρ

section
variable [DecidableEq κ] (exec : ι → σ → ρ × σ)

/-- One whole command of one client. -/
def Served.serve (x : Served κ σ ρ) (e : κ × ι) : Served κ σ ρ :=
  ⟨(exec e.2 x.st).2,
    Function.update x.replies e.1 (x.replies e.1 ++ [(exec e.2 x.st).1])⟩

/-- Whole commands one after the other. -/
def serially (order : List (κ × ι)) (s : σ) : Served κ σ ρ :=
  order.foldl (Served.serve exec) ⟨s, fun _ => []⟩

/-- The commands of one client. -/
def jobsOf (p : κ) (order : List (κ × ι)) : List ι :=
  (order.filter (fun e => e.1 = p)).map (·.2)

variable {exec} {order : List (κ × ι)} {s : σ} {p q : κ} {job : ι}

theorem serially_concat (e : κ × ι) :
    serially exec (order ++ [e]) s = (serially exec order s).serve exec e := by
  unfold serially
  rw [List.foldl_append]
  rfl

theorem jobsOf_concat_self : jobsOf p (order ++ [(p, job)]) = jobsOf p order ++ [job] := by
  simp [jobsOf]

theorem jobsOf_concat_of_ne (hq : q ≠ p) : jobsOf q (order ++ [(p, job)]) = jobsOf q order := by
  simp [jobsOf, hq.symm]

theorem order_of_two {order : List (Bool × ι)} (job : Bool → ι)
    (h : ∀ p, jobsOf p order = [job p]) : order = [(false, job false), (true, job true)] ∨
      order = [(true, job true), (false, job false)] := by
  have hno : ∀ rest : List (Bool × ι), (∀ p, jobsOf p rest = []) → rest = [] := by
    intro rest hrest
    cases rest with
    | nil => rfl
    | cons e _ => exact absurd (hrest e.1) (by simp [jobsOf])
  have hfalse := h false
  have htrue := h true
  match order with
  | [] => cases hfalse
  | [(false, _)] => cases htrue
  | [(true, _)] => cases hfalse
  | (false, _) :: (false, _) :: _ => exact absurd (List.cons.inj hfalse).2 (by simp)
  | (true, _) :: (true, _) :: _ => exact absurd (List.cons.inj htrue).2 (by simp)
  | (false, i) :: (true, j) :: rest =>
    obtain ⟨rfl, hf⟩ := List.cons.inj hfalse
    obtain ⟨rfl, ht⟩ := List.cons.inj htrue
    rw [hno rest (fun p => by cases p <;> assumption)]
    exact .inl rfl
  | (true, i) :: (false, j) :: rest =>
    obtain ⟨rfl, hf⟩ := List.cons.inj hfalse
    obtain ⟨rfl, ht⟩ := List.cons.inj htrue
    rw [hno rest (fun p => by cases p <;> assumption)]
    exact .inr rfl

end

/-! ## Systems -/

/-- A command that has been sent and not yet answered. -/
structure Running (ι σ ρ : Type*) where
  job : ι
  code : Code σ ρ
  /-- it has made a call -/
  begun : Bool
  /-- it has made a call that changes the state -/
  dirty : Bool

/-- A client: the commands it has yet to send, the one it waits for, and the replies it has
had. -/
structure Client (ι σ ρ : Type*) where
  todo : List ι
  now : Option (Running ι σ ρ)
  replies : List ρ

open Client

namespace Running

/-- It is between its first call and its last. -/
def opened (r : Running ι σ ρ) : Bool := r.begun && r.code.settled.isNone

/-- It is between its first change and its last call. -/
def midway (r : Running ι σ ρ) : Bool := r.opened && r.dirty

end Running

namespace Client

def opened (c : Client ι σ ρ) : Bool := c.now.any Running.opened

def midway (c : Client ι σ ρ) : Bool := c.now.any Running.midway

end Client

/-- The shared state, the holder of the mutex, and the clients. -/
structure System (κ ι σ ρ : Type*) where
  st : σ
  holder : Option κ
  clients : κ → Client ι σ ρ

namespace System

section
variable [DecidableEq κ]

/-- Nothing has been sent. -/
def start (s : σ) (script : κ → List ι) : System κ ι σ ρ :=
  ⟨s, none, fun p => ⟨script p, none, []⟩⟩

/-- Client `p` becomes `c`. -/
def set (x : System κ ι σ ρ) (p : κ) (c : Client ι σ ρ) : System κ ι σ ρ :=
  { x with clients := Function.update x.clients p c }

/-- The command of client `p` goes on as `r`. -/
def goes (x : System κ ι σ ρ) (p : κ) (r : Running ι σ ρ) : System κ ι σ ρ :=
  x.set p { x.clients p with now := some r }

/-- Client `p` sends its next command, or its command takes its next step. -/
def step (program : ι → Code σ ρ) (x : System κ ι σ ρ) (p : κ) : Option (System κ ι σ ρ) :=
  match (x.clients p).now with
  | none =>
    match (x.clients p).todo with
    | [] => none
    | job :: rest =>
      some (x.set p
        { x.clients p with todo := rest, now := some ⟨job, program job, false, false⟩ })
  | some r =>
    match r.code with
    | .ret reply =>
      some (x.set p
        { x.clients p with now := none, replies := (x.clients p).replies ++ [reply] })
    | .lock next =>
      if x.holder.isNone then
        some { x.goes p { r with code := next } with holder := some p }
      else none
    | .unlock next => some { x.goes p { r with code := next } with holder := none }
    | .read next => some (x.goes p { r with code := next x.st, begun := true })
    | .write run next =>
      some { x.goes p { r with code := next x.st, begun := true, dirty := true } with
        st := run x.st }

end

/-- A call without the mutex is made when no other command is between its first change and its
last call, and a change when no other command is between its first call and its last. -/
def Careful (x : System κ ι σ ρ) (p : κ) : Prop :=
  match (x.clients p).now with
  | none => True
  | some r =>
    match r.code with
    | .read _ => x.holder = some p ∨ ∀ q, q ≠ p → (x.clients q).midway = false
    | .write _ _ => ∀ q, q ≠ p → (x.clients q).opened = false
    | _ => True

/-- Every command has been sent and answered. -/
def Finished (x : System κ ι σ ρ) : Prop :=
  ∀ p, (x.clients p).todo = [] ∧ (x.clients p).now = none

/-- The replies and the state are those of a serial order of whole commands, in which the
commands of each client stand in the client's own order. -/
def Serializable [DecidableEq κ] (exec : ι → σ → ρ × σ) (script : κ → List ι) (s : σ)
    (x : System κ ι σ ρ) : Prop :=
  ∃ order : List (κ × ι), (∀ p, jobsOf p order = script p) ∧
    serially exec order s = ⟨x.st, fun p => (x.clients p).replies⟩

end System

/-! ## What holds along a run

A command takes its place in the serial order with its last call. `order` is the serial order so
far, and `t` the state it has led to. -/

namespace Client

/-- The commands that have no place in the order yet. -/
def unsettled (c : Client ι σ ρ) : List ι :=
  match c.now with
  | none => c.todo
  | some r => if r.code.settled.isNone then r.job :: c.todo else c.todo

/-- The replies to the commands that have one. -/
def answered (c : Client ι σ ρ) : List ρ :=
  match c.now with
  | none => c.replies
  | some r => c.replies ++ r.code.settled.toList

end Client

/-- A command will come to what it would have come to from `t`. -/
structure Running.Sound (exec : ι → σ → ρ × σ) (held : Prop) (s t : σ) (r : Running ι σ ρ) :
    Prop where
  guarded : r.code.Guarded held
  fresh : r.begun = false → r.dirty = false ∧ ∀ s, r.code.finish s = exec r.job s
  outcome : r.opened = true → r.code.finish s = exec r.job t

structure Client.Sound (exec : ι → σ → ρ × σ) (held : Prop) (s t : σ) (c : Client ι σ ρ) :
    Prop where
  idle : c.now = none → ¬ held
  running : ∀ r, c.now = some r → r.Sound exec held s t

structure System.Sound [DecidableEq κ] (exec : ι → σ → ρ × σ) (script : κ → List ι) (s₀ : σ)
    (order : List (κ × ι)) (x : System κ ι σ ρ) : Prop where
  jobs : ∀ p, jobsOf p order ++ (x.clients p).unsettled = script p
  replies : ∀ p, (x.clients p).answered = (serially exec order s₀).replies p
  clients : ∀ p, (x.clients p).Sound exec (x.holder = some p) x.st (serially exec order s₀).st
  /-- with nobody in the middle of its changes, the state is that of the order -/
  quiet : (∀ p, (x.clients p).midway = false) → x.st = (serially exec order s₀).st
  /-- who is has the mutex, and nobody else is between two calls -/
  alone : ∀ p, (x.clients p).midway = true →
    x.holder = some p ∧ ∀ q, q ≠ p → (x.clients q).opened = false

theorem Client.midway_of_opened {c : Client ι σ ρ} (h : c.opened = false) : c.midway = false := by
  unfold opened at h
  unfold midway
  cases hnow : c.now with
  | none => rfl
  | some r =>
    rw [hnow] at h
    have h : r.opened = false := h
    show (r.opened && r.dirty) = false
    rw [h]
    rfl

namespace System.Sound

variable [DecidableEq κ] {program : ι → Code σ ρ} {exec : ι → σ → ρ × σ} {script : κ → List ι}
  {s₀ : σ} {order order' : List (κ × ι)} {x y : System κ ι σ ρ} {p : κ}

theorem start : Sound exec script s₀ [] (System.start s₀ script) where
  jobs _ := rfl
  replies _ := rfl
  clients _ := ⟨fun _ => by simp [System.start], nofun⟩
  quiet _ := rfl
  alone _ h := by cases h

variable (h : Sound exec script s₀ order x)
include h

/-- One client changes, and with it perhaps the state, the mutex and the order. The others are
concerned only if they are between two calls. -/
theorem update {c : Client ι σ ρ} (hclients : y.clients = Function.update x.clients p c)
    (hholder : ∀ q, q ≠ p → (y.holder = some q ↔ x.holder = some q))
    (horder : ∀ q, q ≠ p → jobsOf q order' = jobsOf q order ∧
      (serially exec order' s₀).replies q = (serially exec order s₀).replies q)
    (hjobs : jobsOf p order' ++ c.unsettled = script p)
    (hreplies : c.answered = (serially exec order' s₀).replies p)
    (hself : c.Sound exec (y.holder = some p) y.st (serially exec order' s₀).st)
    (hseen : (y.st = x.st ∧ (serially exec order' s₀).st = (serially exec order s₀).st) ∨
      ∀ q, q ≠ p → (x.clients q).opened = false)
    (hquiet : (∀ q, q ≠ p → (x.clients q).midway = false) → c.midway = false →
      y.st = (serially exec order' s₀).st) (halone : c.midway = true →
      y.holder = some p ∧ ∀ q, q ≠ p → (x.clients q).opened = false)
    (hothers : ∀ q, q ≠ p → (x.clients q).midway = true → c.opened = false) :
    Sound exec script s₀ order' y := by
  have hp : y.clients p = c := by rw [hclients, Function.update_self]
  have hne : ∀ q, q ≠ p → y.clients q = x.clients q := by
    intro q hq
    rw [hclients, Function.update_of_ne hq]
  refine ⟨fun q => ?_, fun q => ?_, fun q => ?_, fun hnone => ?_, fun q hq => ?_⟩
  · by_cases hqp : q = p
    · rw [hqp, hp]
      exact hjobs
    · rw [hne q hqp, (horder q hqp).1]
      exact h.jobs q
  · by_cases hqp : q = p
    · rw [hqp, hp]
      exact hreplies
    · rw [hne q hqp, (horder q hqp).2]
      exact h.replies q
  · by_cases hqp : q = p
    · rw [hqp, hp]
      exact hself
    · rw [hne q hqp, propext (hholder q hqp)]
      refine ⟨(h.clients q).idle, fun r hr => ?_⟩
      obtain ⟨hguarded, hfresh, houtcome⟩ := (h.clients q).running r hr
      refine ⟨hguarded, hfresh, fun hopened => ?_⟩
      rcases hseen with ⟨hst, ht⟩ | hnone
      · rw [hst, ht]
        exact houtcome hopened
      · -- `q` is not between two calls
        have hq : (x.clients q).opened = false := hnone q hqp
        unfold opened at hq
        rw [hr] at hq
        exact absurd (hopened.symm.trans hq) (by simp)
  · refine hquiet (fun q hqp => ?_) (hp ▸ hnone p)
    rw [← hne q hqp]
    exact hnone q
  · by_cases hqp : q = p
    · subst hqp
      rw [hp] at hq
      refine ⟨(halone hq).1, fun r hr => ?_⟩
      rw [hne r hr]
      exact (halone hq).2 r hr
    · rw [hne q hqp] at hq
      refine ⟨(hholder q hqp).mpr (h.alone q hq).1, fun r hr => ?_⟩
      by_cases hrp : r = p
      · rw [hrp, hp]
        exact hothers q hqp hq
      · rw [hne r hrp]
        exact (h.alone q hq).2 r hr

theorem quiet_of (hp : (x.clients p).midway = false)
    (hothers : ∀ q, q ≠ p → (x.clients q).midway = false) : x.st = (serially exec order s₀).st := by
  refine h.quiet (fun q => ?_)
  by_cases hqp : q = p
  · rw [hqp]
    exact hp
  · exact hothers q hqp

theorem keep {c : Client ι σ ρ} (hclients : y.clients = Function.update x.clients p c)
    (hholder : ∀ q, q ≠ p → (y.holder = some q ↔ x.holder = some q)) (hst : y.st = x.st)
    (hjobs : c.unsettled = (x.clients p).unsettled) (hreplies : c.answered = (x.clients p).answered)
    (hself : c.Sound exec (y.holder = some p) x.st (serially exec order s₀).st)
    (hmidway : c.midway = false) (hbefore : (x.clients p).midway = false)
    (hothers : ∀ q, q ≠ p → (x.clients q).midway = true → c.opened = false) :
    Sound exec script s₀ order y := by
  refine h.update hclients hholder (fun _ _ => ⟨rfl, rfl⟩) ?_ ?_ (hst.symm ▸ hself)
    (.inl ⟨hst, rfl⟩) (fun hnone _ => ?_) (fun hc => ?_) hothers
  · rw [hjobs]
    exact h.jobs p
  · rw [hreplies]
    exact h.replies p
  · rw [hst]
    exact h.quiet_of hbefore hnone
  · exact absurd (hmidway.symm.trans hc) (by simp)

/-- The command of the client takes its place in the order, which then leads to `u`. -/
theorem settle {c : Client ι σ ρ} {job : ι} {reply : ρ} {u : σ}
    (hclients : y.clients = Function.update x.clients p c) (hholder : y.holder = x.holder)
    (hjobs : (x.clients p).unsettled = job :: c.unsettled)
    (hreplies : c.answered = (x.clients p).answered ++ [reply])
    (hexec : exec job (serially exec order s₀).st = (reply, u))
    (hself : c.Sound exec (x.holder = some p) y.st u) (hopened : c.opened = false)
    (hseen : (y.st = x.st ∧ u = (serially exec order s₀).st) ∨
      ∀ q, q ≠ p → (x.clients q).opened = false)
    (hquiet : (∀ q, q ≠ p → (x.clients q).midway = false) → y.st = u) :
    Sound exec script s₀ (order ++ [(p, job)]) y := by
  have hserved : serially exec (order ++ [(p, job)]) s₀ = ⟨u, Function.update
      (serially exec order s₀).replies p ((serially exec order s₀).replies p ++ [reply])⟩ := by
    rw [serially_concat]
    unfold Served.serve
    rw [hexec]
  refine h.update (c := c) hclients (fun q _ => by rw [hholder]) (fun q hq => ⟨?_, ?_⟩) ?_ ?_ ?_ ?_
    (fun hnone _ => ?_) (fun hc => ?_) (fun _ _ _ => hopened)
  · exact jobsOf_concat_of_ne hq
  · rw [hserved]
    exact Function.update_of_ne hq ..
  · rw [jobsOf_concat_self, List.append_assoc, ← h.jobs p, hjobs]
    rfl
  · rw [hserved, hreplies, h.replies p]
    dsimp only
    rw [Function.update_self]
  · rw [hserved, hholder]
    exact hself
  · rw [hserved]
    exact hseen
  · rw [hserved]
    exact hquiet hnone
  · rw [midway_of_opened hopened] at hc
    cases hc

/-! ## One step -/

/-- A command without a call takes its place in the order when it is sent: it makes no
difference when it is served. -/
theorem send (hguarded : ∀ job, (program job).Guarded False)
    (hexec : ∀ job s, (program job).finish s = exec job s)
    (hnow : (x.clients p).now = none) {job : ι} {rest : List ι}
    (htodo : (x.clients p).todo = job :: rest) : ∃ order', Sound exec script s₀ order' (x.set p
      { x.clients p with todo := rest, now := some ⟨job, program job, false, false⟩ }) := by
  have hheld : (x.holder = some p) = False := eq_false ((h.clients p).idle hnow)
  have hself : ∀ s t, Client.Sound exec (x.holder = some p) s t
      { x.clients p with todo := rest, now := some ⟨job, program job, false, false⟩ } := by
    intro s t
    refine ⟨nofun, fun r hr => ?_⟩
    rw [← Option.some.inj hr, hheld]
    exact ⟨hguarded job, fun _ => ⟨rfl, hexec job⟩, fun hopened => absurd hopened (by
      simp [Running.opened])⟩
  have hunsettled : (x.clients p).unsettled = job :: rest := by
    unfold unsettled
    rw [hnow]
    exact htodo
  have hanswered : (x.clients p).answered = (x.clients p).replies := by
    unfold answered
    rw [hnow]
  have hbefore : (x.clients p).midway = false := by
    unfold midway
    rw [hnow]
    rfl
  cases hsettled : (program job).settled with
  | none =>
    refine ⟨order, h.keep rfl (fun _ _ => Iff.rfl) rfl ?_ ?_ (hself _ _) rfl hbefore
      (fun _ _ _ => rfl)⟩
    · rw [hunsettled]
      simp [unsettled, hsettled]
    · rw [hanswered]
      simp [answered, hsettled]
  | some reply =>
    have hserved : exec job (serially exec order s₀).st
        = (reply, (serially exec order s₀).st) := by
      rw [← hexec]
      exact Code.finish_of_settled hsettled _
    refine ⟨order ++ [(p, job)], h.settle rfl rfl ?_ ?_ hserved (hself _ _) rfl (.inl ⟨rfl, rfl⟩)
      (h.quiet_of hbefore)⟩
    · rw [hunsettled]
      simp [unsettled, hsettled]
    · rw [hanswered]
      simp [answered, hsettled]

variable {r : Running ι σ ρ} {next : Code σ ρ} (hnow : (x.clients p).now = some r)
include hnow

theorem answer {reply : ρ} (hcode : r.code = .ret reply) :
    Sound exec script s₀ order (x.set p
      { x.clients p with now := none, replies := (x.clients p).replies ++ [reply] }) := by
  obtain ⟨hguarded, -, -⟩ := (h.clients p).running r hnow
  rw [hcode] at hguarded
  have hopened : r.opened = false := by simp [Running.opened, hcode, Code.settled]
  refine h.keep rfl (fun _ _ => Iff.rfl) rfl ?_ ?_ ⟨fun _ => hguarded, nofun⟩
    rfl ?_ (fun _ _ _ => rfl)
  · simp [unsettled, hnow, hcode, Code.settled]
  · simp [answered, hnow, hcode, Code.settled]
  · simp [midway, hnow, Running.midway, hopened]

/-- The mutex is taken or given back by a client that is not in the middle of its changes. Then
nobody is. -/
theorem pass {holder : Option κ} (hholder : ∀ q, q ≠ p → (holder = some q ↔ x.holder = some q))
    (hguarded : next.Guarded (holder = some p)) (hsettled : r.code.settled = next.settled)
    (hfinish : ∀ s, r.code.finish s = next.finish s) (hmidway : r.midway = false)
    (hothers : ∀ q, q ≠ p → x.holder ≠ some q) :
    Sound exec script s₀ order { x.goes p { r with code := next } with holder := holder } := by
  obtain ⟨-, hfresh, houtcome⟩ := (h.clients p).running r hnow
  have hopened : Running.opened { r with code := next } = r.opened := by
    unfold Running.opened
    rw [hsettled]
  refine h.keep rfl hholder rfl ?_ ?_ ⟨nofun, fun r' hr' => ?_⟩ ?_ ?_
    (fun q hqp hq => absurd (h.alone q hq).1 (hothers q hqp))
  · simp [unsettled, hnow, hsettled]
  · simp [answered, hnow, hsettled]
  · cases hr'
    refine ⟨hguarded, fun hbegun => ⟨(hfresh hbegun).1, fun s => ?_⟩, fun hopen => ?_⟩
    · rw [← hfinish]
      exact (hfresh hbegun).2 s
    · rw [← hfinish]
      exact houtcome (hopened ▸ hopen)
  · show (Running.opened { r with code := next } && r.dirty) = false
    rw [hopened]
    exact hmidway
  · simp [midway, hnow, hmidway]

/-- A call. Either it changes nothing and the state is that of the order, or the client has the
mutex and nobody else is between two calls. -/
theorem call {u : σ} {dirty : Bool} (hsettled : r.code.settled = none)
    (hguarded : next.Guarded (x.holder = some p))
    (hfinish : next.finish u = exec r.job (serially exec order s₀).st)
    (hothers : ∀ q, q ≠ p → (x.clients q).midway = false)
    (hcase : (dirty = false ∧ u = x.st ∧ x.st = (serially exec order s₀).st) ∨
      (dirty = true ∧ x.holder = some p ∧ ∀ q, q ≠ p → (x.clients q).opened = false)) :
    ∃ order', Sound exec script s₀ order'
      { x.goes p { r with code := next, begun := true, dirty := dirty } with st := u } := by
  have hself : ∀ t, (next.settled = none → next.finish u = exec r.job t) →
      Client.Sound exec (x.holder = some p) u t { x.clients p with
        now := some { r with code := next, begun := true, dirty := dirty } } := by
    intro t ht
    refine ⟨nofun, fun r' hr' => ?_⟩
    cases hr'
    refine ⟨hguarded, nofun, fun hopened => ht ?_⟩
    simpa [Running.opened] using hopened
  have hunsettled : (x.clients p).unsettled = r.job :: (x.clients p).todo := by
    simp [unsettled, hnow, hsettled]
  have hanswered : (x.clients p).answered = (x.clients p).replies := by
    simp [answered, hnow, hsettled]
  cases hlast : next.settled with
  | none =>
    refine ⟨order, h.update (c := { x.clients p with
      now := some { r with code := next, begun := true, dirty := dirty } }) rfl
      (fun _ _ => Iff.rfl) (fun _ _ => ⟨rfl, rfl⟩) ?_ ?_ (hself _ (fun _ => hfinish)) ?_
      (fun _ hc => ?_) (fun hc => ?_) (fun q hqp hq => ?_)⟩
    · rw [← h.jobs p, hunsettled]
      simp [unsettled, hlast]
    · rw [← h.replies p, hanswered]
      simp [answered, hlast]
    · exact hcase.imp (fun hread => ⟨hread.2.1, rfl⟩) (fun hwrite => hwrite.2.2)
    · have hclean : dirty = false := by
        simpa [midway, Running.midway, Running.opened, hlast] using hc
      rcases hcase with ⟨-, hu, ht⟩ | ⟨hdirty, -⟩
      · exact hu.trans ht
      · exact absurd (hclean.symm.trans hdirty) (by simp)
    · have hdirty : dirty = true := by
        simpa [midway, Running.midway, Running.opened, hlast] using hc
      rcases hcase with ⟨hclean, -⟩ | ⟨-, hheld, hnone⟩
      · exact absurd (hclean.symm.trans hdirty) (by simp)
      · exact ⟨hheld, hnone⟩
    · exact absurd ((hothers q hqp).symm.trans hq) (by simp)
  | some reply =>
    -- the last call: the command takes its place in the order
    have hserved : exec r.job (serially exec order s₀).st = (reply, u) := by
      rw [← hfinish]
      exact Code.finish_of_settled hlast u
    refine ⟨order ++ [(p, r.job)], h.settle (c := { x.clients p with
      now := some { r with code := next, begun := true, dirty := dirty } }) rfl rfl ?_ ?_ hserved
      (hself u (fun hnone => absurd (hlast.symm.trans hnone) (by simp))) ?_ ?_ (fun _ => rfl)⟩
    · rw [hunsettled]
      simp [unsettled, hlast]
    · rw [hanswered]
      simp [answered, hlast]
    · simp [opened, Running.opened, hlast]
    · exact hcase.imp (fun hread => ⟨hread.2.1, hread.2.1.trans hread.2.2⟩)
        (fun hwrite => hwrite.2.2)

/-- What the command of a client comes to when nobody else is in the middle of its changes. -/
theorem finish_eq (hsettled : r.code.settled = none)
    (hothers : ∀ q, q ≠ p → (x.clients q).midway = false) :
    r.code.finish x.st = exec r.job (serially exec order s₀).st ∧
      (r.dirty = false → x.st = (serially exec order s₀).st) ∧
      (r.dirty = true → (x.clients p).midway = true) := by
  obtain ⟨-, hfresh, houtcome⟩ := (h.clients p).running r hnow
  have hmidway : (x.clients p).midway = (r.begun && r.dirty) := by
    simp [midway, hnow, Running.midway, Running.opened, hsettled]
  cases hbegun : r.begun with
  | false =>
    obtain ⟨hclean, hexec⟩ := hfresh hbegun
    rw [hbegun] at hmidway
    have hst := h.quiet_of hmidway hothers
    refine ⟨?_, fun _ => hst, fun hdirty => absurd (hclean.symm.trans hdirty) (by simp)⟩
    rw [hexec, hst]
  | true =>
    rw [hbegun] at hmidway
    exact ⟨houtcome (by simp [Running.opened, hbegun, hsettled]),
      fun hclean => h.quiet_of (hmidway.trans hclean) hothers, fun hdirty => hmidway.trans hdirty⟩

theorem lock (hr : r.code = .lock next) (hfree : x.holder = none) : Sound exec script s₀ order
      { x.goes p { r with code := next } with holder := some p } := by
  have hcode := ((h.clients p).running r hnow).guarded
  rw [hr] at hcode
  have hmidway : r.midway = false := by
    by_contra hp
    have hp : (x.clients p).midway = true := by simpa [midway, hnow] using hp
    exact absurd (h.alone p hp).1 (by simp [hfree])
  refine h.pass hnow (fun q hqp => ?_) ?_ (by rw [hr]; rfl) (fun s => by rw [hr]; rfl) hmidway
    (fun q _ => by simp [hfree])
  · rw [hfree]
    simp [hqp.symm]
  · rw [eq_true (rfl : some p = some p)]
    exact hcode.2

theorem unlock (hr : r.code = .unlock next) : Sound exec script s₀ order
      { x.goes p { r with code := next } with holder := none } := by
  have hcode := ((h.clients p).running r hnow).guarded
  rw [hr] at hcode
  obtain ⟨hheld, hnext, hsettled⟩ := hcode
  have hmidway : r.midway = false := by
    obtain ⟨reply, hreply⟩ := Option.ne_none_iff_exists'.mp hsettled
    have hreply : r.code.settled = some reply := by rw [hr]; exact hreply
    simp [Running.midway, Running.opened, hreply]
  have hothers : ∀ q, q ≠ p → x.holder ≠ some q := by
    intro q hqp
    rw [hheld]
    simp [hqp.symm]
  refine h.pass hnow (fun q hqp => ?_) ?_ (by rw [hr]; rfl) (fun s => by rw [hr]; rfl) hmidway
    hothers
  · simp [hothers q hqp]
  · simpa using hnext

theorem read {next : σ → Code σ ρ} (hr : r.code = .read next)
    (hok : x.holder = some p ∨ ∀ q, q ≠ p → (x.clients q).midway = false) :
    ∃ order', Sound exec script s₀ order'
      (x.goes p { r with code := next x.st, begun := true }) := by
  have hcode := ((h.clients p).running r hnow).guarded
  have hsettled : r.code.settled = none := by rw [hr]; rfl
  -- with the mutex, nobody else is in the middle of its changes
  have hothers : ∀ q, q ≠ p → (x.clients q).midway = false := by
    rcases hok with hheld | hnone
    · intro q hqp
      by_contra hq
      have hq := (h.alone q (by simpa using hq)).1
      exact hqp (Option.some.inj (hq.symm.trans hheld))
    · exact hnone
  obtain ⟨hfinish, hclean, hdirty⟩ := h.finish_eq hnow hsettled hothers
  rw [hr] at hfinish hcode
  refine h.call (u := x.st) hnow hsettled (hcode x.st) hfinish hothers ?_
  cases hd : r.dirty with
  | false => exact .inl ⟨rfl, rfl, hclean hd⟩
  | true => exact .inr ⟨rfl, h.alone p (hdirty hd)⟩

theorem write {run : σ → σ} {next : σ → Code σ ρ} (hr : r.code = .write run next)
    (hok : ∀ q, q ≠ p → (x.clients q).opened = false) :
    ∃ order', Sound exec script s₀ order' { x.goes p
      { r with code := next x.st, begun := true, dirty := true } with st := run x.st } := by
  have hcode := ((h.clients p).running r hnow).guarded
  have hsettled : r.code.settled = none := by rw [hr]; rfl
  have hothers : ∀ q, q ≠ p → (x.clients q).midway = false :=
    fun q hqp => midway_of_opened (hok q hqp)
  obtain ⟨hfinish, -, -⟩ := h.finish_eq hnow hsettled hothers
  rw [hr] at hfinish hcode
  obtain ⟨hheld, hnext⟩ := hcode
  refine h.call hnow hsettled ?_ hfinish hothers (.inr ⟨rfl, hheld, hok⟩)
  rw [eq_true hheld]
  exact hnext x.st

omit hnow in
/-- **One step.** With its last call, a command takes its place at the end of the order. -/
theorem step (hguarded : ∀ job, (program job).Guarded False)
    (hexec : ∀ job s, (program job).finish s = exec job s)
    (hok : x.Careful p) (hstep : x.step program p = some y) :
    ∃ order', Sound exec script s₀ order' y := by
  unfold System.step at hstep
  unfold System.Careful at hok
  cases hnow : (x.clients p).now with
  | none =>
    rw [hnow] at hstep
    cases htodo : (x.clients p).todo with
    | nil =>
      rw [htodo] at hstep
      cases hstep
    | cons job rest =>
      rw [htodo] at hstep
      cases hstep
      exact h.send hguarded hexec hnow htodo
  | some r =>
    rw [hnow] at hstep hok
    dsimp only at hstep hok
    cases hr : r.code
    all_goals rw [hr] at hstep hok
    case lock next =>
      dsimp only at hstep
      split at hstep
      · rename_i hfree
        cases hstep
        exact ⟨order, h.lock hnow hr (Option.isNone_iff_eq_none.mp hfree)⟩
      · cases hstep
    all_goals obtain rfl := Option.some.inj hstep
    case ret reply => exact ⟨order, h.answer hnow hr⟩
    case unlock next => exact ⟨order, h.unlock hnow hr⟩
    case read next => exact h.read hnow hr hok
    case write run next => exact h.write hnow hr hok

end System.Sound

/-- **Serial order.** If every command makes its changes under the mutex and no call after it,
and if no step lets a reader without the mutex see half of another command or overtakes one,
then the replies and the state are those of a serial order of whole commands. -/
theorem serializable_of_careful [DecidableEq κ] {program : ι → Code σ ρ}
    {exec : ι → σ → ρ × σ} {script : κ → List ι} {s : σ} {x : System κ ι σ ρ}
    (hguarded : ∀ job, (program job).Guarded False)
    (hexec : ∀ job s, (program job).finish s = exec job s)
    (hrun : Reaches (System.step program) System.Careful (System.start s script) x)
    (hdone : x.Finished) : x.Serializable exec script s := by
  have hsound : ∃ order, System.Sound exec script s order x := by
    refine @Reaches.invariant _ _ _ _ _ _ (fun y => ∃ order, System.Sound exec script s order y)
      hrun ?_ (fun y z p hy hok hstep => ?_)
    · exact ⟨[], .start⟩
    · obtain ⟨order, hy⟩ := hy
      exact hy.step hguarded hexec hok hstep
  obtain ⟨order, h⟩ := hsound
  refine ⟨order, fun p => ?_, ?_⟩
  · have hp := h.jobs p
    unfold unsettled at hp
    rw [(hdone p).2, (hdone p).1, List.append_nil] at hp
    exact hp
  · have hst : x.st = (serially exec order s).st := by
      refine h.quiet (fun p => ?_)
      unfold midway
      rw [(hdone p).2]
      rfl
    have hreplies : (serially exec order s).replies = fun p => (x.clients p).replies := by
      funext p
      rw [← h.replies p]
      unfold answered
      rw [(hdone p).2]
    rw [hst, ← hreplies]

end Vole.Serial
